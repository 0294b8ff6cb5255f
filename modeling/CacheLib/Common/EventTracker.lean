/-
`EventTracker` (`cachelib/common/EventTracker.cpp`): events go through a bounded queue to a
background thread, and from there to the sink.

The thread ends when it reads an event without a key, as the destructor writes one, or when a
callback or the sink throws. If it ends earlier, nothing empties the queue any more, and once that
is full, the destructor waits forever.
-/
import CacheLib.Lib.Run
import Mathlib.Data.List.Infix
import Mathlib.Tactic.SplitIfs

set_option autoImplicit false

namespace CacheLib.EventTracker

open Transition List Option

structure EventInfo where
  key : String := ""
  deriving DecidableEq

/-- In `blockingRead`, on the way with an event from the queue to the sink, or at its end -/
inductive Thread
  | reading | handling (eventInfo : EventInfo) | ended
  deriving DecidableEq

/-- Not called, in `blockingWrite`, in `join`, or at its end -/
inductive Destructor
  | idle | writing | joining | returned
  deriving DecidableEq

structure State where
  queue : List EventInfo := []
  thread : Thread := .reading
  destructor : Destructor := .idle
  /-- The events for which the answer was `QUEUED`, and those that the sink has taken -/
  queued : List EventInfo := []
  recorded : List EventInfo := []

inductive Event
  /-- With what `preQueueCallback` makes of the event, unless it throws -/
  | record (eventInfo : Option EventInfo)
  /-- The thread takes an event out of the queue. -/
  | read
  /-- The rest of the round: `postQueueCallback` or the sink may throw. -/
  | handle (throws : Bool)
  | destroy
  | blockingWrite
  | join

variable (queueSize : ℕ)

def recordWithoutSampling (s : State) : Option EventInfo → State
  | none => s
  | some e =>
      if s.queue.length < queueSize then { s with queue := s.queue ++ [e], queued := s.queued ++ [e] }
      else s

/-- What the thread does with an event that it has read -/
def handle (s : State) (e : EventInfo) (throws : Bool) : State :=
  if e.key = "" ∨ throws then { s with thread := .ended }
  else { s with thread := .reading, recorded := s.recorded ++ [e] }

def step (s : State) : Event → Option State
  | .record e => if s.destructor = .idle then some (recordWithoutSampling queueSize s e) else none
  | .read =>
      match s.thread, s.queue with
      | .reading, e :: queue => some { s with queue, thread := .handling e }
      | _, _ => none
  | .handle throws =>
      match s.thread with
      | .handling e => some (handle s e throws)
      | _ => none
  | .destroy => if s.destructor = .idle then some { s with destructor := .writing } else none
  | .blockingWrite =>
      if s.destructor = .writing ∧ s.queue.length < queueSize then
        some { s with queue := s.queue ++ [{}], destructor := .joining }
      else none
  | .join =>
      if s.destructor = .joining ∧ s.thread = .ended then some { s with destructor := .returned }
      else none

/-- What is recorded has a key, and nothing throws in the thread. -/
def Event.Ordinary : Event → Prop
  | .record e => ∀ x ∈ e, x.key ≠ ""
  | .handle throws => throws = false
  | _ => True

/-- When the destructor is called, the thread has not ended or the queue is not full; and as long as
it waits to write, the thread does not end while the queue is full. -/
def Event.Writable (s : State) : Event → Prop
  | .destroy => s.thread ≠ .ended ∨ s.queue.length < queueSize
  | .handle throws => s.destructor = .writing → ∀ e, s.thread = .handling e →
      e.key = "" ∨ throws → s.queue.length < queueSize
  | _ => True

variable {queueSize} {s t : State} {e : Event} {es : List Event}

theorem step_record {o : Option EventInfo} (hstep : step queueSize s (.record o) = some t) :
    s.destructor = .idle ∧ (t = s ∨ ∃ x ∈ o, s.queue.length < queueSize ∧
      t = { s with queue := s.queue ++ [x], queued := s.queued ++ [x] }) := by
  obtain ⟨hidle, ⟨⟩⟩ := ite_none_right_eq_some.mp hstep
  cases o <;> simp only [recordWithoutSampling] <;> grind

theorem step_read (hstep : step queueSize s .read = some t) :
    ∃ x q, s.thread = .reading ∧ s.queue = x :: q ∧
      t = { s with queue := q, thread := .handling x } := by
  rcases s with ⟨_ | ⟨x, q⟩, _ | _ | _, d, queued, r⟩ <;> obtain ⟨⟩ := hstep
  exact ⟨x, q, rfl, rfl, rfl⟩

theorem step_handle {throws : Bool} (hstep : step queueSize s (.handle throws) = some t) :
    ∃ x, s.thread = .handling x ∧ t = handle s x throws := by
  rcases s with ⟨q, _ | x | _, d, queued, r⟩ <;> obtain ⟨⟩ := hstep
  exact ⟨x, rfl, rfl⟩

/-! ## The order of the events -/

/-- The event between the queue and the sink -/
def Thread.inHand : Thread → List EventInfo
  | .handling e => [e]
  | _ => []

/-- What the destructor has written -/
def Destructor.written : Destructor → List EventInfo
  | .idle | .writing => []
  | .joining | .returned => [{}]

/-- The sink has taken the first of the queued events; as long as the thread runs, all the others
are in its hand or in the queue. -/
structure InOrder (queueSize : ℕ) (s : State) : Prop where
  length_le : s.queue.length ≤ queueSize
  recorded : s.recorded <+: s.queued
  running : s.thread ≠ .ended →
    s.recorded ++ s.thread.inHand ++ s.queue = s.queued ++ s.destructor.written

/-- What the thread handles is the next of the queued events, or, after them all, what the
destructor has written. -/
theorem InOrder.handling (h : InOrder queueSize s) {x : EventInfo} (hx : s.thread = .handling x) :
    s.recorded ++ [x] <+: s.queued ∨
      (s.recorded = s.queued ∧ x = {} ∧ s.destructor.written = [{}]) := by
  have hrunning := h.running (by simp [hx])
  rw [hx] at hrunning
  have hfirst : s.recorded ++ [x] <+: s.queued ++ s.destructor.written := ⟨_, hrunning⟩
  cases hd : s.destructor <;> rw [hd] at hfirst <;>
    simp only [Destructor.written, append_nil] at hfirst
  case idle | writing => exact .inl hfirst
  all_goals
    refine (prefix_concat_iff.mp hfirst).symm.imp_right fun heq => ?_
    obtain ⟨hrecorded, hlast⟩ := append_inj' heq rfl
    exact ⟨hrecorded, (cons.inj hlast).1, rfl⟩

theorem InOrder.of_step (h : InOrder queueSize s) (hstep : step queueSize s e = some t) :
    InOrder queueSize t := by
  obtain ⟨hlen, hrec, hrun⟩ := id h
  cases e with
  | record o =>
      obtain ⟨hidle, rfl | ⟨x, -, hlt, rfl⟩⟩ := step_record hstep
      · exact h
      · refine ⟨by simpa using Nat.succ_le_of_lt hlt, hrec.trans (prefix_append ..), fun hr => ?_⟩
        simp [← append_assoc, hrun hr, hidle, Destructor.written]
  | read =>
      obtain ⟨x, q, hthread, hqueue, rfl⟩ := step_read hstep
      rw [hqueue] at hlen hrun
      refine ⟨(Nat.le_succ _).trans hlen, hrec, fun _ => ?_⟩
      simpa [hthread, Thread.inHand] using hrun
  | handle throws =>
      obtain ⟨x, hthread, rfl⟩ := step_handle hstep
      rw [handle]
      split_ifs with hx
      · exact ⟨hlen, hrec, fun hr => absurd rfl hr⟩
      · -- an event with a key is not the one that the destructor has written
        refine ⟨hlen, (h.handling hthread).resolve_right ?_, fun _ => ?_⟩
        · rintro ⟨-, rfl, -⟩
          exact hx (.inl rfl)
        · simpa [hthread, Thread.inHand] using hrun
  | destroy =>
      obtain ⟨hd, ⟨⟩⟩ := ite_none_right_eq_some.mp hstep
      rw [hd] at hrun
      exact ⟨hlen, hrec, hrun⟩
  | blockingWrite =>
      obtain ⟨⟨hd, hlt⟩, ⟨⟩⟩ := ite_none_right_eq_some.mp hstep
      refine ⟨by simpa using Nat.succ_le_of_lt hlt, hrec, fun hr => ?_⟩
      simp [← append_assoc, hrun hr, hd, Destructor.written]
  | join =>
      obtain ⟨⟨hd, -⟩, ⟨⟩⟩ := ite_none_right_eq_some.mp hstep
      rw [hd] at hrun
      exact ⟨hlen, hrec, hrun⟩

theorem inOrder_init : InOrder queueSize {} := ⟨Nat.zero_le _, prefix_rfl, fun _ => rfl⟩

/-- **The sink takes the first of the queued events, in their order**, whatever throws and whenever
the destructor is called. -/
theorem recorded_in_order (hrun : exec (step queueSize) {} es = some s) : InOrder queueSize s :=
  exec_invariant (fun _ _ _ h => h.of_step) hrun inOrder_init

/-- The thread has the event without a key in its hand when the last one is queued. -/
theorem recorded_in_order_keyless :
    ∃ es s, exec (step 1) {} es = some s ∧ s.queued = [⟨"a"⟩, ⟨""⟩, ⟨"b"⟩] ∧ s.recorded = [⟨"a"⟩] ∧
      InOrder 1 s := by
  have hrun : exec (step 1) {} [.record (some ⟨"a"⟩), .read, .record (some ⟨""⟩), .handle false,
    .read, .record (some ⟨"b"⟩)] = some _ := rfl
  exact ⟨_, _, hrun, rfl, rfl, recorded_in_order hrun⟩

/-! ## The destructor -/

/-- If nothing throws and all events have a key, the thread ends when it has read what the
destructor has written, and the sink has taken all the others by then. -/
structure Delivers (queueSize : ℕ) (s : State) : Prop extends InOrder queueSize s where
  keys : ∀ x ∈ s.queued, x.key ≠ ""
  ended : s.thread = .ended → s.destructor.written = [{}] ∧ s.recorded = s.queued
  returned : s.destructor = .returned → s.thread = .ended

theorem Delivers.of_step (h : Delivers queueSize s) (he : e.Ordinary)
    (hstep : step queueSize s e = some t) : Delivers queueSize t := by
  have hinv := h.toInOrder.of_step hstep
  obtain ⟨-, hkeys, hended, hreturned⟩ := id h
  cases e with
  | record o =>
      obtain ⟨hidle, rfl | ⟨x, hx, -, rfl⟩⟩ := step_record hstep
      · exact h
      · refine ⟨hinv, ?_, fun hr => ?_, fun hd => ?_⟩
        · exact fun y hy => (mem_append.mp hy).elim (hkeys y) fun hy =>
            he y (mem_singleton.mp hy ▸ hx)
        · simpa [hidle, Destructor.written] using (hended hr).1
        · cases hidle.symm.trans hd
  | read =>
      obtain ⟨x, q, hthread, -, rfl⟩ := step_read hstep
      refine ⟨hinv, hkeys, fun hr => ?_, fun hd => ?_⟩
      · cases hr
      · cases hthread.symm.trans (hreturned hd)
  | handle throws =>
      obtain ⟨x, hthread, rfl⟩ := step_handle hstep
      obtain rfl : throws = false := he
      simp only [handle, Bool.false_eq_true, or_false] at hinv ⊢
      split_ifs at hinv ⊢ with hx
      · refine ⟨hinv, hkeys, fun _ => ?_, fun _ => rfl⟩
        obtain hfirst | ⟨hrecorded, -, hwritten⟩ := h.handling hthread
        · exact absurd hx (hkeys x (hfirst.subset (by simp)))
        · exact ⟨hwritten, hrecorded⟩
      · refine ⟨hinv, hkeys, fun hr => ?_, fun hd => ?_⟩
        · cases hr
        · cases hthread.symm.trans (hreturned hd)
  | destroy =>
      obtain ⟨hd, ⟨⟩⟩ := ite_none_right_eq_some.mp hstep
      rw [hd] at hended
      exact ⟨hinv, hkeys, hended, fun h => by cases h⟩
  | blockingWrite =>
      obtain ⟨⟨hd, -⟩, ⟨⟩⟩ := ite_none_right_eq_some.mp hstep
      refine ⟨hinv, hkeys, fun hr => ⟨rfl, (hended hr).2⟩, fun h => by cases h⟩
  | join =>
      obtain ⟨⟨hd, hthread⟩, ⟨⟩⟩ := ite_none_right_eq_some.mp hstep
      exact ⟨hinv, hkeys, fun hr => ⟨rfl, (hended hr).2⟩, fun _ => hthread⟩

/-- As long as the destructor waits to write, there is room or the thread makes some. -/
structure Live (queueSize : ℕ) (s : State) : Prop extends InOrder queueSize s where
  room : s.destructor = .writing → s.thread ≠ .ended ∨ s.queue.length < queueSize

theorem Live.of_step (h : Live queueSize s) (he : e.Writable queueSize s)
    (hstep : step queueSize s e = some t) : Live queueSize t := by
  refine ⟨h.toInOrder.of_step hstep, fun hd => ?_⟩
  cases e with
  | record o =>
      obtain ⟨hidle, rfl | ⟨x, -, -, rfl⟩⟩ := step_record hstep <;> cases hidle.symm.trans hd
  | read =>
      obtain ⟨x, q, -, -, rfl⟩ := step_read hstep
      exact .inl fun hr => by cases hr
  | handle throws =>
      obtain ⟨x, hthread, rfl⟩ := step_handle hstep
      rw [handle] at hd ⊢
      split_ifs at hd ⊢ with hx
      · exact .inr (he hd x hthread hx)
      · exact .inl fun hr => by cases hr
  | destroy =>
      obtain ⟨-, ⟨⟩⟩ := ite_none_right_eq_some.mp hstep
      exact he
  | blockingWrite | join =>
      obtain ⟨-, ⟨⟩⟩ := ite_none_right_eq_some.mp hstep
      cases hd

/-- As long as the destructor has not returned, it or the thread can go on. -/
theorem Live.progress (h : Live queueSize s) (hsize : 0 < queueSize) (hd : s.destructor ≠ .idle)
    (hreturned : s.destructor ≠ .returned) : ∃ e, (step queueSize s e).isSome := by
  rcases s with ⟨q, thread, d, queued, r⟩
  cases thread with
  | handling x => exact ⟨.handle false, rfl⟩
  | ended =>
      cases d with
      | idle | returned => contradiction
      | writing => exact ⟨.blockingWrite, by simp [step, (h.room rfl).resolve_left (· rfl)]⟩
      | joining => exact ⟨.join, rfl⟩
  | reading =>
      cases q with
      | cons x q => exact ⟨.read, rfl⟩
      | nil =>
          cases d with
          | idle | returned => contradiction
          | writing => exact ⟨.blockingWrite, by simp [step, hsize]⟩
          | joining =>
              -- the sink would have taken what the destructor has written
              have hall := congrArg length (h.running (by simp))
              have hle : r.length ≤ queued.length := h.recorded.length_le
              simp only [Thread.inHand, Destructor.written, append_nil, length_append,
                length_singleton] at hall
              omega

/-- The steps that are left, at most -/
def State.remaining (s : State) : ℕ :=
  2 * s.queue.length + s.thread.inHand.length + match s.destructor with
    | .writing => 4
    | .joining => 1
    | _ => 0

theorem step_remaining (hd : s.destructor ≠ .idle) (hstep : step queueSize s e = some t) :
    t.destructor ≠ .idle ∧ t.remaining < s.remaining := by
  cases e with
  | read =>
      obtain ⟨x, q, hthread, hqueue, rfl⟩ := step_read hstep
      refine ⟨hd, ?_⟩
      simp only [State.remaining, hthread, hqueue, Thread.inHand, length_cons, length_nil]
      omega
  | handle throws =>
      obtain ⟨x, hthread, rfl⟩ := step_handle hstep
      rw [handle]
      split <;> exact ⟨hd, by simp [State.remaining, hthread, Thread.inHand]⟩
  | blockingWrite =>
      obtain ⟨⟨hw, -⟩, ⟨⟩⟩ := ite_none_right_eq_some.mp hstep
      refine ⟨by simp, ?_⟩
      simp only [State.remaining, hw, length_append, length_singleton]
      omega
  | _ =>
      obtain ⟨hw, ⟨⟩⟩ := ite_none_right_eq_some.mp hstep
      simp_all [State.remaining]

theorem exec_remaining (hd : s.destructor ≠ .idle) (hrun : exec (step queueSize) s es = some t) :
    es.length ≤ s.remaining := by
  induction es generalizing s with
  | nil => exact Nat.zero_le _
  | cons e es ih =>
      obtain ⟨u, hstep, hrun⟩ := exec_cons_eq_some.mp hrun
      obtain ⟨hu, hlt⟩ := step_remaining hd hstep
      exact Nat.lt_of_le_of_lt (ih hu hrun) hlt

/-- **The destructor returns if the thread had not ended or the queue was not full when it was
called, and the thread does not end at a full queue before the destructor has written**, after so
many more steps at most. **By then every event that was queued has been passed to the sink once**,
in their order, if all of them have a key and nothing has thrown in the thread. -/
theorem destructor_returns (hsize : 0 < queueSize) (hrun : exec (step queueSize) {} es = some s)
    (hd : s.destructor ≠ .idle) :
    (Along (step queueSize) (Event.Writable queueSize) {} es → s.destructor ≠ .returned →
      ∃ e, (step queueSize s e).isSome) ∧
    (∀ es' t, exec (step queueSize) s es' = some t → es'.length ≤ s.remaining) ∧
    ((∀ e ∈ es, e.Ordinary) → s.destructor = .returned → s.recorded = s.queued) := by
  refine ⟨fun hC => ?_, fun es' t => exec_remaining hd, fun hes hreturned => ?_⟩
  · have hinit : Live queueSize {} := ⟨inOrder_init, fun h => by cases h⟩
    exact (exec_invariant_along (fun _ _ _ h he => h.of_step he) hrun hC hinit).progress hsize hd
  · have hinit : Delivers queueSize {} :=
      ⟨inOrder_init, by simp, fun h => absurd h (by decide), fun h => absurd h (by decide)⟩
    have hdelivers := exec_invariant_along (fun _ _ _ h he => h.of_step he) hrun
      (Along.of_forall fun e he _ => hes e he) hinit
    exact (hdelivers.ended (hdelivers.returned hreturned)).2

theorem destructor_returns_one :
    ∃ es s, exec (step 1) {} es = some s ∧ s.destructor = .returned ∧ s.recorded = [⟨"a"⟩] := by
  have hrun : exec (step 1) {} [.record (some ⟨"a"⟩), .destroy, .read, .handle false,
    .blockingWrite, .read, .handle false, .join] = some _ := rfl
  exact ⟨_, _, hrun, rfl,
    (destructor_returns Nat.one_pos hrun (by decide)).2.2 (by simp [Event.Ordinary]) rfl⟩

/-- The thread has ended at an event without a key, and the next one fills the queue. -/
theorem destructor_blocked :
    ∃ s, exec (step 1) {} [.record (some ⟨""⟩), .read, .handle false, .record (some ⟨"a"⟩), .destroy]
        = some s ∧
      s.destructor ≠ .returned ∧ (∀ e, step 1 s e = none) ∧ s.queued = [⟨""⟩, ⟨"a"⟩] ∧
      s.recorded = [] := by
  refine ⟨_, rfl, by decide, fun e => ?_, rfl, rfl⟩
  cases e <;> rfl

end CacheLib.EventTracker
