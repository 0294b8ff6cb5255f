/-
Concurrent calls of the standalone server on one key.

`setNX`, `increment`, `decrement`, `incr`, `compareAndSwap` and `touch` hold
`atomicOpMutex_` from before their `find` until they return; `set` and `remove`
never take it. The steps of a run are the accesses to the cache, each of them
atomic: a `find`, an `insertOrReplace`, a `remove`. A call that holds the mutex
finds, decides (`Plan`), and in a later step writes what it decided. The mutex
keeps the other holders out of that gap. It does not keep out a plain `set` or
`remove`, and one that falls into the gap is overwritten by a decision made
before it: the history is then not linearizable. This is all that can go wrong.
-/
import CacheLib.Lib.Linearize
import CacheLib.Lib.Run
import CacheLib.Server.CacheManager

set_option autoImplicit false

namespace CacheLib.Server

open Linearize Transition List Option Function

/-! ## Calls -/

/-- A call on the key, with its arguments. -/
inductive Op where
  | set (value : Bytes) (ttlSeconds : UInt32)
  | remove
  | setNX (value : Bytes) (ttlSeconds : UInt32)
  | increment (delta : Int64) (ttlSeconds : UInt32)
  | decrement (delta : Int64) (ttlSeconds : UInt32)
  | incr (delta : Int64) (ttlSeconds : UInt32)
  | compareAndSwap (expectedValue newValue : Bytes) (ttlSeconds : UInt32) (keepTtl : Bool)
  | touch (ttlSeconds : UInt32)
  deriving DecidableEq, Repr

/-- What a call returns. -/
inductive Reply where
  | bool (result : Bool)
  | setNX (result : SetNXResult)
  | count (result : IncrDecrResult)
  | incr (result : IncrResult)
  | compareAndSwap (result : CASResult)
  | touch (result : TouchResult)
  deriving DecidableEq, Repr

/-- A plan with its results renamed. -/
def Plan.map {ρ ρ' : Type} (f : ρ → ρ') : Plan ρ → Plan ρ'
  | .reply result => .reply (f result)
  | .store value ttlSeconds stored failed => .store value ttlSeconds (f stored) (f failed)

namespace Op

/-- The call alone: the manager's method. -/
def run (m : CacheManager) (op : Op) (inp : Inputs) (slot : Option Item) :
    Option Item × Reply :=
  match op with
  | .set value ttl => (m.set slot value ttl inp).map id .bool
  | .remove => (m.remove slot).map id .bool
  | .setNX value ttl => (m.setNX slot value ttl inp).map id .setNX
  | .increment delta ttl => (m.increment slot delta ttl inp).map id .count
  | .decrement delta ttl => (m.decrement slot delta ttl inp).map id .count
  | .incr delta ttl => (m.incr slot delta ttl inp).map id .incr
  | .compareAndSwap expected new ttl keepTtl =>
      (m.compareAndSwap slot expected new ttl keepTtl inp).map id .compareAndSwap
  | .touch ttl => (m.touch slot ttl inp).map id .touch

/-- What a call that takes the mutex decides when its `find` meets this slot;
`none` for the two that do not take it. -/
def planAt (op : Op) (inp : Inputs) (slot : Option Item) : Option (Plan Reply) :=
  let found := find inp.findClock slot
  match op with
  | .set _ _ | .remove => none
  | .setNX value ttl => some ((setNXPlan value ttl found).map .setNX)
  | .increment delta ttl => some ((atomicAddPlan (orOne delta) ttl found inp.now).map .count)
  | .decrement delta ttl => some ((atomicAddPlan (-orOne delta) ttl found inp.now).map .count)
  | .incr delta ttl => some ((incrPlan (orOne delta) ttl found inp.now).map .incr)
  | .compareAndSwap expected new ttl keepTtl =>
      some ((compareAndSwapPlan expected new ttl keepTtl found inp.now).map .compareAndSwap)
  | .touch ttl => some ((touchPlan ttl found).map .touch)

/-- The call takes `atomicOpMutex_`. -/
def locks : Op → Bool
  | .set _ _ | .remove => false
  | _ => true

/-- A plain call that changes what the cache holds: a `set` that goes through, a
`remove` with something to remove. -/
def Writes (m : CacheManager) (op : Op) (inp : Inputs) (slot : Option Item) : Prop :=
  match op with
  | .set value _ => m.stores value inp
  | .remove => slot.isSome = true
  | _ => False

end Op

/-! ## The system -/

/-- How far a call has come. -/
inductive Phase where
  | idle
  /-- entered, no access to the cache or the mutex yet -/
  | invoked (op : Op) (inp : Inputs)
  /-- has the mutex, has not called `find` yet -/
  | holding (op : Op) (inp : Inputs)
  /-- has the mutex, has found, and is going to `set` -/
  | storing (op : Op) (inp : Inputs) (value : Bytes) (ttlSeconds : UInt32) (stored failed : Reply)
  /-- its last access to the cache is over -/
  | replying (reply : Reply)
  | done

def Phase.isStoring : Phase → Bool
  | .storing .. => true
  | _ => false

structure System where
  slot : Option Item
  mutex : Option ℕ
  phase : ℕ → Phase
  history : List (Event ℕ (Op × Inputs) Reply)

/-- No call has been made. -/
def System.init (slot : Option Item) : System :=
  { slot, mutex := none, phase := fun _ => .idle, history := [] }

def System.setPhase (s : System) (id : ℕ) (p : Phase) : System :=
  { s with phase := update s.phase id p }

/-- Who moves. The inputs of a call are fixed when it is invoked; a call draws
its readings and its allocation from them as it goes. -/
inductive Label where
  | invoke (id : ℕ) (op : Op) (inp : Inputs)
  | lock (id : ℕ)
  | find (id : ℕ)
  | write (id : ℕ)
  | plain (id : ℕ)
  | reply (id : ℕ)

/-- The phase after `find` has led to this plan. -/
def Plan.toPhase (op : Op) (inp : Inputs) : Plan Reply → Phase
  | .reply result => .replying result
  | .store value ttl stored failed => .storing op inp value ttl stored failed

/-- One step of one call. -/
def step (m : CacheManager) (s : System) : Label → Option System
  | .invoke id op inp =>
      match s.phase id with
      | .idle =>
          some { s.setPhase id (.invoked op inp) with
            history := s.history ++ [.invoke id (op, inp)] }
      | _ => none
  | .lock id =>
      match s.phase id, s.mutex with
      | .invoked op inp, none =>
          if op.locks then some { s.setPhase id (.holding op inp) with mutex := some id } else none
      | _, _ => none
  | .find id =>
      match s.phase id with
      | .holding op inp =>
          (op.planAt inp s.slot).map fun plan => s.setPhase id (plan.toPhase op inp)
      | _ => none
  | .write id =>
      match s.phase id with
      | .storing _ inp value ttl stored failed =>
          let out := (Plan.store value ttl stored failed).run m s.slot inp
          some { s.setPhase id (.replying out.2) with slot := out.1 }
      | _ => none
  | .plain id =>
      match s.phase id with
      | .invoked op inp =>
          if op.locks then none
          else
            let out := op.run m inp s.slot
            some { s.setPhase id (.replying out.2) with slot := out.1 }
      | _ => none
  | .reply id =>
      match s.phase id with
      | .replying reply =>
          -- the lock guard goes out of scope with the call
          some { s.setPhase id .done with
            mutex := if s.mutex = some id then none else s.mutex
            history := s.history ++ [.respond id reply] }
      | _ => none

/-- Some call holds the mutex and is between its `find` and its write. -/
def System.inGap (s : System) : Bool :=
  match s.mutex with
  | none => false
  | some id => (s.phase id).isStoring

/-- No plain write falls between the `find` and the write of a call that holds
the mutex. -/
def Undisturbed (m : CacheManager) (s : System) : Label → Prop
  | .plain id => ∀ op inp, s.phase id = .invoked op inp → op.Writes m inp s.slot →
      s.inGap = false
  | _ => True

/-- The sequential object: calls one at a time. -/
def sequential (m : CacheManager) (call : Op × Inputs) (slot : Option Item) :
    Option Item × Reply :=
  call.1.run m call.2 slot

variable {op : Op} {slot : Option Item} {p : Phase} {seq : List (ℕ × Op × Inputs)}

/-! ## A call under the mutex is its plan, carried out -/

section Plans

variable {m : CacheManager} {inp : Inputs}

theorem Plan.run_map {ρ ρ' : Type} (f : ρ → ρ') (plan : Plan ρ) (slot : Option Item) :
    (plan.map f).run m slot inp = (plan.run m slot inp).map id f := by
  rcases plan with result | ⟨value, ttl, stored, failed⟩
  · rfl
  · by_cases hs : m.stores value inp
    · simp only [Plan.map, Plan.run_store_of_stores hs, Prod.map_apply, id_eq]
    · simp only [Plan.map, Plan.run_store_of_not_stores hs, Prod.map_apply, id_eq]

/-- Uninterrupted, finding and carrying out the plan is the manager's method. -/
theorem Op.run_of_planAt (hready : m.ready = true)
    {plan : Plan Reply} (h : op.planAt inp slot = some plan) :
    op.run m inp slot = plan.run m slot inp := by
  cases op
  case set => exact absurd h (by simp [Op.planAt])
  case remove => exact absurd h (by simp [Op.planAt])
  all_goals
    simp only [Op.planAt, some.injEq] at h
    rw [← h, Plan.run_map]
    simp only [Op.run, CacheManager.setNX, CacheManager.increment, CacheManager.decrement,
      CacheManager.atomicAddValue, CacheManager.incr, CacheManager.compareAndSwap,
      CacheManager.touch, CacheManager.readModifyWrite_of_ready hready]

/-- A plain call that does not write leaves the slot. -/
theorem Op.run_fst_of_not_writes (hlocks : op.locks = false)
    (h : ¬ op.Writes m inp slot) : (op.run m inp slot).1 = slot := by
  cases op
  case set value ttl =>
      simp only [Op.run, CacheManager.set_of_not_stores h, Prod.map_apply, id_eq]
  case remove =>
      have hnone : slot = none := by
        rcases slot with _ | item
        · rfl
        · exact absurd rfl h
      unfold Op.run CacheManager.remove
      rw [hnone]
      split_ifs <;> rfl
  all_goals exact absurd hlocks (by simp [Op.locks])

end Plans

/-! ## The invariant -/

section Invariant

variable {m : CacheManager} {init : Option Item}

/-- The call has been invoked and has not taken effect. -/
def Pending (s : System) (seq : List (ℕ × Op × Inputs)) (id : ℕ) (call : Op × Inputs) : Prop :=
  .invoke id call ∈ s.history ∧ id ∉ seq.map Prod.fst

/-- What is known of a call in each phase, `seq` being the order so far. Running a call
that is `storing` from its start on the slot as it is *now* leads to its write. -/
def PhaseOk (m : CacheManager) (init : Option Item) (s : System) (seq : List (ℕ × Op × Inputs))
    (id : ℕ) : Phase → Prop
  | .idle => ∀ call, .invoke id call ∉ s.history
  | .invoked op inp => Pending s seq id (op, inp)
  | .holding op inp => Pending s seq id (op, inp) ∧ s.mutex = some id
  | .storing op inp value ttl stored failed =>
      Pending s seq id (op, inp) ∧ s.mutex = some id ∧
        op.planAt inp s.slot = some (.store value ttl stored failed)
  | .replying reply => (id, reply) ∈ responses (sequential m) init seq
  | .done => True

/-- The history so far is linearizable, with an order in which every call stands
as its phase says. -/
def Inv (m : CacheManager) (init : Option Item) (s : System) : Prop :=
  ∃ seq, Linearizes (sequential m) init s.history s.slot seq ∧
    ∀ id, PhaseOk m init s seq id (s.phase id)

theorem inv_init (m : CacheManager) (init : Option Item) : Inv m init (.init init) := by
  refine ⟨[], Linearizes.nil, fun id call hmem => ?_⟩
  exact absurd hmem (by simp [System.init])

/-- **Frame.** A step of another call leaves what is known of this one. -/
theorem PhaseOk.frame {s t : System}
    (new : List (ℕ × Op × Inputs)) (events : List (Event ℕ (Op × Inputs) Reply)) {id : ℕ}
    (hok : PhaseOk m init s seq id p) (hhistory : t.history = s.history ++ events)
    (hevents : ∀ call, .invoke id call ∉ events) (hnew : id ∉ new.map Prod.fst)
    (hresponses : ∀ x ∈ responses (sequential m) init seq,
      x ∈ responses (sequential m) init (seq ++ new))
    (hmutex : s.mutex = some id → t.mutex = some id)
    (hslot : s.mutex = some id → p.isStoring = true → t.slot = s.slot) :
    PhaseOk m init t (seq ++ new) id p := by
  have hpending : ∀ call, Pending s seq id call → Pending t (seq ++ new) id call := by
    rintro call ⟨hinvoked, hnot⟩
    refine ⟨by rw [hhistory]; exact mem_append_left _ hinvoked, ?_⟩
    rw [map_append, mem_append]
    rintro (hmem | hmem)
    · exact hnot hmem
    · exact hnew hmem
  -- From the call that has not started to the one that has returned.
  rcases p with _ | ⟨op, inp⟩ | ⟨op, inp⟩ | ⟨op, inp, value, ttl, stored, failed⟩ | reply | _
  · intro call hmem
    rw [hhistory] at hmem
    rcases mem_append.mp hmem with hmem | hmem
    · exact hok call hmem
    · exact hevents call hmem
  · exact hpending _ hok
  · exact ⟨hpending _ hok.1, hmutex hok.2⟩
  · obtain ⟨hpend, hheld, hplan⟩ := hok
    -- In the gap the plan is still the plan for the slot, because the slot has not changed.
    refine ⟨hpending _ hpend, hmutex hheld, ?_⟩
    rw [hslot hheld rfl]
    exact hplan
  · exact hresponses _ hok
  · trivial

/-- The frame for a step that takes no effect. -/
theorem PhaseOk.frame_same {s t : System}
    (events : List (Event ℕ (Op × Inputs) Reply)) {id : ℕ}
    (hok : PhaseOk m init s seq id p) (hhistory : t.history = s.history ++ events)
    (hevents : ∀ call, .invoke id call ∉ events)
    (hmutex : s.mutex = some id → t.mutex = some id) (hslot : t.slot = s.slot) :
    PhaseOk m init t seq id p := by
  have := hok.frame [] events hhistory hevents (by simp) (by simp) hmutex (fun _ _ => hslot)
  rwa [append_nil] at this

/-- The frame for a step whose call takes effect. -/
theorem PhaseOk.frame_commit {s t : System} {id other : ℕ}
    {call : Op × Inputs} (hne : other ≠ id) (hok : PhaseOk m init s seq other p)
    (hhistory : t.history = s.history) (hmutex : t.mutex = s.mutex)
    (hslot : s.mutex = some other → p.isStoring = true → t.slot = s.slot) :
    PhaseOk m init t (seq ++ [(id, call)]) other p := by
  refine hok.frame [(id, call)] [] ?_ (by simp) (by simpa using hne) ?_
    (fun h => by rw [hmutex, h]) hslot
  · rw [hhistory, append_nil]
  · intro x hx
    rw [responses_append]
    exact mem_append_left _ hx

/-- Putting the call that moved and the others together. -/
theorem inv_of_moved {s t : System} {id : ℕ}
    (hlin : Linearizes (sequential m) init t.history t.slot seq)
    (hphase : t.phase = update s.phase id p) (hself : PhaseOk m init t seq id p)
    (hothers : ∀ other, other ≠ id → PhaseOk m init t seq other (s.phase other)) :
    Inv m init t := by
  refine ⟨seq, hlin, fun other => ?_⟩
  rw [hphase]
  by_cases h : other = id
  · rw [h, update_self]
    exact hself
  · rw [update_of_ne h]
    exact hothers other h

/-! ## The steps -/

variable {s t : System} {id : ℕ}

theorem inv_invoke {inp : Inputs} (hinv : Inv m init s)
    (h : step m s (.invoke id op inp) = some t) : Inv m init t := by
  obtain ⟨seq, hlin, hok⟩ := hinv
  have hid := hok id
  simp only [step] at h
  split at h
  · next hphase =>
    injection h with h
    subst h
    rw [hphase] at hid
    refine inv_of_moved (hlin.invoke (op, inp) hid) rfl ⟨?_, ?_⟩ ?_
    · exact mem_append_right _ (mem_singleton.mpr rfl)
    · -- a call in the order has been invoked before
      intro hmem
      obtain ⟨⟨id', call⟩, hcall, rfl⟩ := mem_map.mp hmem
      exact hid call (hlin.invoked _ _ hcall)
    · intro other hne
      refine (hok other).frame_same [_] rfl ?_ (fun h => h) rfl
      intro call hmem
      rw [mem_singleton] at hmem
      injection hmem with hmem
      exact hne hmem
  · exact absurd h (by simp)

theorem inv_lock (hinv : Inv m init s) (h : step m s (.lock id) = some t) : Inv m init t := by
  obtain ⟨seq, hlin, hok⟩ := hinv
  have hid := hok id
  simp only [step] at h
  split at h
  · next op inp hphase hmutex =>
    split_ifs at h
    injection h with h
    subst h
    rw [hphase] at hid
    refine inv_of_moved hlin rfl ⟨hid, rfl⟩ ?_
    intro other hne
    refine (hok other).frame_same [] (append_nil _).symm (by simp) ?_ rfl
    -- nobody had the mutex
    intro hheld
    rw [hmutex] at hheld
    exact absurd hheld (by simp)
  · exact absurd h (by simp)

/-- A `find` whose plan is a reply is the call's linearization point. -/
theorem inv_find (hready : m.ready = true) (hinv : Inv m init s)
    (h : step m s (.find id) = some t) : Inv m init t := by
  obtain ⟨seq, hlin, hok⟩ := hinv
  have hid := hok id
  simp only [step] at h
  split at h
  · next op inp hphase =>
    obtain ⟨plan, hplan, rfl⟩ := map_eq_some_iff.mp h
    rw [hphase] at hid
    obtain ⟨⟨hinvoked, hnot⟩, hheld⟩ := hid
    have hrun := Op.run_of_planAt hready hplan
    rcases plan with reply | ⟨value, ttl, stored, failed⟩
    · obtain ⟨hlin', hres⟩ := hlin.commit hinvoked hnot
      rw [show sequential m (op, inp) s.slot = (s.slot, reply) from hrun] at hlin' hres
      refine inv_of_moved hlin' rfl hres fun other hne => ?_
      exact (hok other).frame_commit hne rfl rfl fun _ _ => rfl
    · refine inv_of_moved hlin rfl ⟨⟨hinvoked, hnot⟩, hheld, hplan⟩ fun other _ => ?_
      exact (hok other).frame_same [] (append_nil _).symm (by simp)
        (fun h => h) rfl
  · exact absurd h (by simp)

/-- The write of a call that found: what it decided is what it would decide now. -/
theorem inv_write (hready : m.ready = true) (hinv : Inv m init s)
    (h : step m s (.write id) = some t) : Inv m init t := by
  obtain ⟨seq, hlin, hok⟩ := hinv
  have hid := hok id
  simp only [step] at h
  split at h
  · next op inp value ttl stored failed hphase =>
    injection h with h
    subst h
    rw [hphase] at hid
    obtain ⟨⟨hinvoked, hnot⟩, hheld, hplan⟩ := hid
    have hrun := Op.run_of_planAt hready hplan
    obtain ⟨hlin', hres⟩ := hlin.commit hinvoked hnot
    rw [show sequential m (op, inp) s.slot = _ from hrun] at hlin' hres
    refine inv_of_moved hlin' rfl hres fun other hne => ?_
    refine (hok other).frame_commit hne rfl rfl fun hother _ => ?_
    -- only the holder of the mutex is in a gap
    rw [hheld, some.injEq] at hother
    exact absurd hother.symm hne
  · exact absurd h (by simp)

/-- A plain call takes effect in its one step. -/
theorem inv_plain (hinv : Inv m init s) (hundisturbed : Undisturbed m s (.plain id))
    (h : step m s (.plain id) = some t) : Inv m init t := by
  obtain ⟨seq, hlin, hok⟩ := hinv
  have hid := hok id
  simp only [step] at h
  split at h
  · next op inp hphase =>
    split_ifs at h with hlocks
    injection h with h
    subst h
    rw [hphase] at hid
    obtain ⟨hinvoked, hnot⟩ := hid
    obtain ⟨hlin', hres⟩ := hlin.commit hinvoked hnot
    refine inv_of_moved hlin' rfl hres fun other hne => ?_
    refine (hok other).frame_commit hne rfl rfl fun hother hstoring => ?_
    by_cases hwrites : op.Writes m inp s.slot
    · -- `other` would be in its gap
      have hgap := hundisturbed op inp hphase hwrites
      unfold System.inGap at hgap
      rw [hother] at hgap
      exact absurd hstoring (by simp [hgap])
    · exact Op.run_fst_of_not_writes (by simpa using hlocks) hwrites
  · exact absurd h (by simp)

theorem inv_reply (hinv : Inv m init s) (h : step m s (.reply id) = some t) : Inv m init t := by
  obtain ⟨seq, hlin, hok⟩ := hinv
  have hid := hok id
  simp only [step] at h
  split at h
  · next reply hphase =>
    injection h with h
    subst h
    rw [hphase] at hid
    refine inv_of_moved (hlin.respond hid) rfl trivial fun other hne => ?_
    refine (hok other).frame_same [_] rfl (by simp) ?_ rfl
    intro hheld
    show (if s.mutex = some id then none else s.mutex) = some other
    rw [hheld, if_neg]
    rw [some.injEq]
    exact hne
  · exact absurd h (by simp)

/-- **Every undisturbed step keeps the invariant.** -/
theorem step_inv (hready : m.ready = true) (l : Label) (hinv : Inv m init s)
    (hundisturbed : Undisturbed m s l) (h : step m s l = some t) : Inv m init t := by
  cases l with
  | invoke id op inp => exact inv_invoke hinv h
  | lock id => exact inv_lock hinv h
  | find id => exact inv_find hready hinv h
  | write id => exact inv_write hready hinv h
  | plain id => exact inv_plain hinv hundisturbed h
  | reply id => exact inv_reply hinv h

end Invariant

/-! ## Linearizability -/

/-- What a call that is about to write relies on, read in the slot it is about to
overwrite. -/
def StoreJustified (op : Op) (inp : Inputs) (value : Bytes) (slot : Option Item) : Prop :=
  match op with
  | .compareAndSwap expectedValue _ _ _ => slot.map Item.value = some expectedValue
  | .setNX _ _ => find inp.findClock slot = none
  | .touch _ => slot.map Item.value = some value
  | _ => True

theorem storeJustified_of_planAt {inp : Inputs} {value : Bytes}
    {ttl : UInt32} {stored failed : Reply}
    (h : op.planAt inp slot = some (.store value ttl stored failed)) :
    StoreJustified op inp value slot := by
  cases op
  case setNX =>
      rcases hfind : find inp.findClock slot with _ | item
      · exact hfind
      · simp [Op.planAt, hfind, setNXPlan, Plan.map] at h
  case compareAndSwap =>
      rcases hfind : find inp.findClock slot with _ | item
      · simp [Op.planAt, hfind, compareAndSwapPlan, Plan.map] at h
      · have hslot := (find_eq_some_iff.mp hfind).1
        simp only [Op.planAt, hfind, compareAndSwapPlan, some.injEq] at h
        -- A store is only planned on the branch where the values are equal.
        split_ifs at h with hvalue
        · exact absurd h (by simp [Plan.map])
        all_goals
          rw [StoreJustified, hslot, map_some]
          simpa using hvalue
  case touch =>
      rcases hfind : find inp.findClock slot with _ | item
      · simp [Op.planAt, hfind, touchPlan, Plan.map] at h
      · have hslot := (find_eq_some_iff.mp hfind).1
        simp only [Op.planAt, hfind, touchPlan, Plan.map, some.injEq,
          Plan.store.injEq] at h
        rw [StoreJustified, hslot, map_some, h.1]
  all_goals trivial

/-- **Undisturbed runs are linearizable.** In every interleaving of calls in which
no plain write falls between the `find` and the write of a call that holds the
mutex, every state reached has a linearizable history ending in the slot as it
is, and every call that is about to write finds its decision still justified. -/
theorem linearizable_of_undisturbed (m : CacheManager) (hready : m.ready = true)
    (slot : Option Item) (ls : List Label) (s : System)
    (hrun : exec (step m) (.init slot) ls = some s)
    (hundisturbed : Along (step m) (Undisturbed m) (.init slot) ls) :
    Linearizable (sequential m) slot s.history s.slot ∧
    ∀ id op inp value ttl stored failed,
      s.phase id = .storing op inp value ttl stored failed →
      StoreJustified op inp value s.slot := by
  have hinv : Inv m slot s :=
    exec_invariant_along (fun s l t hs hC ht => step_inv hready l hs hC ht) hrun hundisturbed
      (inv_init m slot)
  obtain ⟨seq, hlin, hok⟩ := hinv
  refine ⟨⟨seq, hlin⟩, ?_⟩
  intro id op inp value ttl stored failed hphase
  have hid := hok id
  rw [hphase] at hid
  exact storeJustified_of_planAt hid.2.2

/-- The calls of the two runs below: a swap and a plain `set`, each within one
second. -/
def swap (expectedValue : Bytes) : Op × Inputs :=
  (.compareAndSwap expectedValue [99] 0 false, .within 1000)

def plainSet : Op × Inputs := (.set [98] 0, .within 1000)

/-- A `set` while a `compareAndSwap` already holds the mutex but has not called
`find` yet. -/
def setBeforeFind : List Label :=
  [.invoke 0 (swap [98]).1 (swap [98]).2, .lock 0, .invoke 1 plainSet.1 plainSet.2, .plain 1,
    .find 0, .write 0]

theorem undisturbed_setBeforeFind :
    Along (step { ready := true }) (Undisturbed { ready := true }) (.init (some ⟨[97], 0⟩))
      setBeforeFind := by
  refine ⟨trivial, ?_⟩
  rintro _ ⟨⟩
  refine ⟨trivial, ?_⟩
  rintro _ ⟨⟩
  refine ⟨trivial, ?_⟩
  rintro _ ⟨⟩
  refine ⟨fun _ _ _ _ => rfl, ?_⟩
  rintro _ ⟨⟩
  refine ⟨trivial, ?_⟩
  rintro _ ⟨⟩
  exact ⟨trivial, fun _ _ => trivial⟩

/-- The swap finds the value the `set` has stored and replaces it. -/
theorem linearizable_setBeforeFind :
    ∃ s, exec (step { ready := true }) (.init (some ⟨[97], 0⟩)) setBeforeFind = some s ∧
      s.slot = some ⟨[99], 0⟩ ∧
      Linearizable (sequential { ready := true }) (some ⟨[97], 0⟩) s.history s.slot := by
  obtain ⟨s, hrun, hslot⟩ : ∃ s, exec (step { ready := true }) (.init (some ⟨[97], 0⟩))
      setBeforeFind = some s ∧ s.slot = some ⟨[99], 0⟩ := ⟨_, rfl, rfl⟩
  exact ⟨s, hrun, hslot,
    (linearizable_of_undisturbed _ rfl _ _ _ hrun undisturbed_setBeforeFind).1⟩

/-- A plain `set` falls into the gap of a `compareAndSwap`. -/
def setInGap : List Label :=
  [.invoke 0 (swap [97]).1 (swap [97]).2, .lock 0, .find 0, .invoke 1 plainSet.1 plainSet.2,
    .plain 1, .write 0, .reply 0, .reply 1]

/-- What is seen of that run from outside. -/
def gapHistory : List (Event ℕ (Op × Inputs) Reply) :=
  [.invoke 0 (swap [97]), .invoke 1 plainSet,
    .respond 0 (.compareAndSwap { success := true, actualValue := [99] }),
    .respond 1 (.bool true)]

/-- Only two orders are open to a history with these two calls. -/
theorem gapHistory_orders {final : Option Item}
    (hlin : Linearizes (sequential { ready := true }) (some ⟨[97], 0⟩) gapHistory final seq) :
    seq = [(0, swap [97]), (1, plainSet)] ∨ seq = [(1, plainSet), (0, swap [97])] := by
  have hmem : ∀ p ∈ seq, p = (0, swap [97]) ∨ p = (1, plainSet) := by
    rintro ⟨id, call⟩ hp
    have := hlin.invoked id call hp
    simpa [gapHistory] using this
  -- both calls have responded, so both stand in the order
  have hzero := mem_of_mem_responses (hlin.completed 0
    (.compareAndSwap { success := true, actualValue := [99] }) (by simp [gapHistory]))
  have hone := mem_of_mem_responses (hlin.completed 1 (.bool true) (by simp [gapHistory]))
  have hnodup := hlin.nodup
  rcases seq with _ | ⟨p, _ | ⟨q, _ | ⟨r, seq⟩⟩⟩
  · simp at hzero
  · rcases hmem p (by simp) with rfl | rfl
    · simp at hone
    · simp at hzero
  · rcases hmem p (by simp) with rfl | rfl <;> rcases hmem q (by simp) with rfl | rfl
    · simp at hnodup
    · exact Or.inl rfl
    · exact Or.inr rfl
    · simp at hnodup
  · -- three places for two identities
    exfalso
    rcases hmem p (by simp) with rfl | rfl <;> rcases hmem q (by simp) with rfl | rfl <;>
      rcases hmem r (by simp) with rfl | rfl <;> simp at hnodup

/-- **The gap.** The slot holds `a`. A `compareAndSwap` from `a` to `c` finds it; a
plain `set` stores `b`; the swap writes `c` over it. Both report success and the
slot ends with `c`, which no order of the two calls explains. -/
theorem compareAndSwap_overwrites_set :
    ∃ s, exec (step { ready := true }) (.init (some ⟨[97], 0⟩)) setInGap = some s ∧
      ¬ Linearizable (sequential { ready := true }) (some ⟨[97], 0⟩) s.history s.slot := by
  obtain ⟨s, hrun, hslot, hhistory⟩ : ∃ s, exec (step { ready := true })
      (.init (some ⟨[97], 0⟩)) setInGap = some s ∧ s.slot = some ⟨[99], 0⟩ ∧
      s.history = gapHistory := ⟨_, rfl, rfl, rfl⟩
  refine ⟨s, hrun, ?_⟩
  rintro ⟨seq, hlin⟩
  rw [hslot, hhistory] at hlin
  rcases gapHistory_orders hlin with rfl | rfl
  · -- swap first: the slot ends with `b`
    exact absurd hlin.finalState_eq (by decide)
  · -- `set` first: the swap fails
    have := hlin.completed 0 (.compareAndSwap { success := true, actualValue := [99] })
      (by simp [gapHistory])
    exact absurd this (by decide)

end CacheLib.Server
