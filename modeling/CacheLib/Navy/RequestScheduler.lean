/-
The request scheduler of the flash engine (`NavyRequestScheduler`, `NavyRequestDispatcher`,
`NavyThread`).

The jobs of a shard run one after another: while one is out, the others are spooled in the shard's
list, and the completion of a job submits the next. A job is submitted to the dispatcher that its
key and type name. The dispatcher has an incoming list, which submitters push to; the first of them
starts a dispatch loop. The loop claims the list by leaving a sentinel in its place, dispatches what
was in it, and ends when it can take the sentinel off with nothing on top of it.

A step is what a thread does between two atomic operations or critical sections. A shard's mutex is
held over the submission, so it is a field of the state. The operations of one dispatcher's fibers
on `numOutstanding_` and the baton are not interrupted, as these fibers share a thread and suspend
only in a wait. The destructor is left out: `stopped_` stays false.
-/
import CacheLib.Lib.Run
import CacheLib.Lib.Threads
import Mathlib.Data.Fintype.Sum

set_option autoImplicit false

namespace CacheLib.Navy.Scheduler

open Function

inductive JobType where
  | read
  | write
  deriving DecidableEq, Repr

inductive JobExitCode where
  | done
  | reschedule
  deriving DecidableEq, Repr

/-- The parameters of the constructor. `NavyConfig` refuses a scheduler without threads. -/
structure Config where
  numReaderThreads : ℕ
  numWriterThreads : ℕ
  maxNumReads : ℕ
  maxNumWrites : ℕ
  numShardsPower : ℕ
  readers_pos : 0 < numReaderThreads
  writers_pos : 0 < numWriterThreads

/-- `NavyRequest`. The number is that of the enqueue. -/
structure Request where
  id : ℕ
  key : UInt64
  type : JobType
  deriving DecidableEq, Repr

/-- A reader or a writer -/
abbrev Dispatcher (cfg : Config) := Fin cfg.numReaderThreads ⊕ Fin cfg.numWriterThreads

namespace Config

variable (cfg : Config)

def numShards : ℕ := 2 ^ cfg.numShardsPower

def shardOf (key : UInt64) : ℕ := key.toNat % cfg.numShards

def getDispatcher (key : UInt64) : JobType → Dispatcher cfg
  | .read => .inl ⟨key.toNat % cfg.numReaderThreads, Nat.mod_lt _ cfg.readers_pos⟩
  | .write => .inr ⟨key.toNat % cfg.numWriterThreads, Nat.mod_lt _ cfg.writers_pos⟩

def maxOutstanding : Dispatcher cfg → ℕ
  | .inl _ => max cfg.maxNumReads cfg.numReaderThreads / cfg.numReaderThreads
  | .inr _ => max cfg.maxNumWrites cfg.numWriterThreads / cfg.numWriterThreads

/-- In the order in which `finish` drains them -/
def dispatchers : List (Dispatcher cfg) :=
  (List.finRange _).map .inl ++ (List.finRange _).map .inr

end Config

variable {cfg : Config}

/-- `incomingReqs_`: the requests, the last one first, and whether the list ends in the sentinel. -/
structure Incoming where
  reqs : List Request := []
  claimed : Bool := false
  deriving DecidableEq, Repr

namespace Incoming

def isNull (q : Incoming) : Bool := q.reqs.isEmpty && !q.claimed

def isSentinel (q : Incoming) : Bool := q.reqs.isEmpty && q.claimed

end Incoming

/-- Where a thread stands in `submitReq`: before the push, before the `numRunning_++` of
`addTaskRemote`, and before the task is given to the fiber manager. -/
inductive Submission (cfg : Config) where
  | pushing (req : Request)
  | scheduling (d : Dispatcher cfg)
  | starting (d : Dispatcher cfg)
  deriving DecidableEq

/-- Where a dispatch loop stands in `processLoop`. -/
inductive Loop where
  | claim
  | dispatch (pending : List Request)
  | waiting (req : Request) (pending : List Request)
  /-- in `scheduleReq`, after `numOutstanding_.inc()` -/
  | adding (req : Request) (pending : List Request)
  /-- `processLoop` has returned. -/
  | ending
  deriving DecidableEq, Repr

/-- Where the fiber of a job stands, outside of `submitReq`. -/
inductive JobPc where
  | executing
  | notifying
  | completing
  | ending
  deriving DecidableEq, Repr

/-- Who submits a request: a caller of `enqueueWithKey`, or the fiber of a job that has completed,
in `notifyCompletion`. -/
inductive Submitter (cfg : Config) where
  | caller (shard : ℕ)
  | job (d : Dispatcher cfg) (req : Request)
  deriving DecidableEq

inductive Thread (cfg : Config) where
  /-- in `submitReq`, with the mutex of the shard -/
  | submitting (who : Submitter cfg) (sub : Submission cfg)
  | loop (d : Dispatcher cfg) (pc : Loop)
  | job (d : Dispatcher cfg) (req : Request) (pc : JobPc)
  deriving DecidableEq

namespace Submitter

/-- The shard whose mutex the submitter holds -/
def shard : Submitter cfg → ℕ
  | caller shard => shard
  | job _ req => cfg.shardOf req.key

/-- What is left of the submitter when `submitReq` has returned. -/
def afterwards : Submitter cfg → List (Thread cfg)
  | caller _ => []
  | job d req => [.job d req .completing]

end Submitter

/-- The thread that calls `finish`: what it still has to drain, and whether the dispatcher it
waits for has notified it. -/
inductive Finisher (cfg : Config) where
  | idle
  | draining (rest : List (Dispatcher cfg))
  | waiting (d : Dispatcher cfg) (rest : List (Dispatcher cfg)) (notified : Bool)
  | returned
  deriving DecidableEq

structure Shared (cfg : Config) where
  /-- `mutexes_`, by shard -/
  locked : ℕ → Bool := fun _ => false
  shouldSpool : ℕ → Bool := fun _ => false
  pendingReqs : ℕ → List Request := fun _ => []
  incomingReqs : Dispatcher cfg → Incoming := fun _ => {}
  numOutstanding : Dispatcher cfg → ℕ := fun _ => 0
  /-- `baton_`: posted since it was last reset -/
  posted : Dispatcher cfg → Bool := fun _ => false
  numRunning : Dispatcher cfg → ℕ := fun _ => 0
  finisher : Finisher cfg := .idle
  enqueued : List Request := []
  done : List Request := []

structure State (cfg : Config) extends Shared cfg where
  threads : List (Thread cfg) := []

namespace Shared

variable (s : Shared cfg) (d : Dispatcher cfg)

def setIncoming (q : Incoming) : Shared cfg :=
  { s with incomingReqs := update s.incomingReqs d q }

def setLocked (shard : ℕ) (held : Bool) : Shared cfg :=
  { s with locked := update s.locked shard held }

/-- `numOutstanding_.inc()` -/
def incOutstanding : Shared cfg :=
  { s with numOutstanding := update s.numOutstanding d (s.numOutstanding d + 1) }

/-- `numRunning_++` under the mutex, in `addTask` and `addTaskRemote` -/
def incRunning : Shared cfg :=
  { s with numRunning := update s.numRunning d (s.numRunning d + 1) }

/-- The end of a task: `--numRunning_`, and the thread in `drain` is notified if that was the
last. -/
def decRunning : Shared cfg :=
  { s with
    numRunning := update s.numRunning d (s.numRunning d - 1)
    finisher :=
      match s.finisher with
      | .waiting d' rest notified =>
          .waiting d' rest (notified || decide (d' = d ∧ s.numRunning d - 1 = 0))
      | other => other }

/-- The end of a job in `scheduleReq`: `numOutstanding_.dec()`, and the post of the baton. -/
def decOutstanding : Shared cfg :=
  { s with
    numOutstanding := update s.numOutstanding d (s.numOutstanding d - 1)
    posted :=
      if s.numOutstanding d - 1 + 1 = cfg.maxOutstanding d then update s.posted d true
      else s.posted }

/-- One step of `submitReq`. At its end the mutex of the shard is given back. -/
def submitReq (who : Submitter cfg) : Submission cfg → Shared cfg × List (Thread cfg)
  | .pushing req =>
      let d := cfg.getDispatcher req.key req.type
      let pushed := s.setIncoming d
        { s.incomingReqs d with reqs := req :: (s.incomingReqs d).reqs }
      if (s.incomingReqs d).isNull then (pushed, [.submitting who (.scheduling d)])
      else (pushed.setLocked who.shard false, who.afterwards)
  | .scheduling d => (s.incRunning d, [.submitting who (.starting d)])
  | .starting d => (s.setLocked who.shard false, who.afterwards ++ [.loop d .claim])

/-- One step of `processLoop`. A loop that waits has one when the baton has been posted. -/
def processLoop : Loop → Option (Shared cfg × List (Thread cfg))
  | .claim =>
      some (s.setIncoming d ⟨[], true⟩, [.loop d (.dispatch (s.incomingReqs d).reqs.reverse)])
  | .dispatch [] =>
      if (s.incomingReqs d).isSentinel then some (s.setIncoming d ⟨[], false⟩, [.loop d .ending])
      else some (s, [.loop d .claim])
  | .dispatch (req :: pending) =>
      if s.numOutstanding d = cfg.maxOutstanding d then
        some ({ s with posted := update s.posted d false },
          [.loop d (.waiting req pending)])
      else some (s.incOutstanding d, [.loop d (.adding req pending)])
  | .waiting req pending =>
      if s.posted d then some (s.incOutstanding d, [.loop d (.adding req pending)]) else none
  | .adding req pending =>
      some (s.incRunning d, [.loop d (.dispatch pending), .job d req .executing])
  | .ending => some (s.decRunning d, [])

/-- `notifyCompletion`, up to `submitReq`. It waits for the mutex of the shard. -/
def notifyCompletion (req : Request) :
    Option (Shared cfg × List (Thread cfg)) :=
  let shard := cfg.shardOf req.key
  if s.locked shard then none
  else
    match s.pendingReqs shard with
    | [] =>
        some ({ s with shouldSpool := update s.shouldSpool shard false },
          [.job d req .completing])
    | next :: rest =>
        some ({ s with pendingReqs := update s.pendingReqs shard rest }.setLocked shard true,
          [.submitting (.job d req) (.pushing next)])

/-- One step of the task that `scheduleReq` adds. `code` is what the job returns. -/
def runJob (req : Request) (code : JobExitCode) :
    JobPc → Option (Shared cfg × List (Thread cfg))
  | .executing =>
      match code with
      | .reschedule => some (s, [.job d req .executing])
      | .done => some ({ s with done := s.done ++ [req] }, [.job d req .notifying])
  | .notifying => s.notifyCompletion d req
  | .completing => some (s.decOutstanding d, [.job d req .ending])
  | .ending => some (s.decRunning d, [])

/-- One step of a thread, and the threads that take its place. -/
def runThread (code : JobExitCode) : Thread cfg → Option (Shared cfg × List (Thread cfg))
  | .submitting who sub => some (s.submitReq who sub)
  | .loop d pc => s.processLoop d pc
  | .job d req pc => s.runJob d req code pc

/-- `NavyThread::drain`, for one dispatcher after another. -/
def drain : Option (Shared cfg) :=
  match s.finisher with
  | .draining [] => some { s with finisher := .returned }
  | .draining (d :: rest) =>
      if s.numRunning d = 0 then some { s with finisher := .draining rest }
      else some { s with finisher := .waiting d rest false }
  | .waiting _ rest notified =>
      if notified then some { s with finisher := .draining rest } else none
  | .idle | .returned => none

/-- The ways a dispatch loop goes on, one constructor for each branch of `processLoop` -/
inductive LoopStep (d : Dispatcher cfg) : Loop → Shared cfg → List (Thread cfg) → Prop
  | claim : LoopStep d .claim (s.setIncoming d ⟨[], true⟩)
      [.loop d (.dispatch (s.incomingReqs d).reqs.reverse)]
  | unclaim (hq : (s.incomingReqs d).isSentinel = true) :
      LoopStep d (.dispatch []) (s.setIncoming d ⟨[], false⟩) [.loop d .ending]
  | retry (hq : (s.incomingReqs d).isSentinel = false) :
      LoopStep d (.dispatch []) s [.loop d .claim]
  | wait {req pending} (hout : s.numOutstanding d = cfg.maxOutstanding d) :
      LoopStep d (.dispatch (req :: pending)) { s with posted := update s.posted d false }
        [.loop d (.waiting req pending)]
  | dispatch {req pending} (hout : s.numOutstanding d ≠ cfg.maxOutstanding d) :
      LoopStep d (.dispatch (req :: pending)) (s.incOutstanding d) [.loop d (.adding req pending)]
  | resume {req pending} (hposted : s.posted d = true) :
      LoopStep d (.waiting req pending) (s.incOutstanding d) [.loop d (.adding req pending)]
  | add {req pending} : LoopStep d (.adding req pending) (s.incRunning d)
      [.loop d (.dispatch pending), .job d req .executing]
  | finish : LoopStep d .ending (s.decRunning d) []

/-- The ways the fiber of a job goes on, one constructor for each branch of `runJob` -/
inductive JobStep (d : Dispatcher cfg) (req : Request) :
    JobExitCode → JobPc → Shared cfg → List (Thread cfg) → Prop
  | reschedule : JobStep d req .reschedule .executing s [.job d req .executing]
  | done : JobStep d req .done .executing { s with done := s.done ++ [req] }
      [.job d req .notifying]
  | free {code} (hpending : s.pendingReqs (cfg.shardOf req.key) = []) :
      JobStep d req code .notifying
        { s with shouldSpool := update s.shouldSpool (cfg.shardOf req.key) false }
        [.job d req .completing]
  | next {code next rest} (hfree : ¬ s.locked (cfg.shardOf req.key) = true)
      (hpending : s.pendingReqs (cfg.shardOf req.key) = next :: rest) :
      JobStep d req code .notifying
        ({ s with pendingReqs := update s.pendingReqs (cfg.shardOf req.key) rest }.setLocked
          (cfg.shardOf req.key) true)
        [.submitting (.job d req) (.pushing next)]
  | complete {code} : JobStep d req code .completing (s.decOutstanding d) [.job d req .ending]
  | finish {code} : JobStep d req code .ending (s.decRunning d) []

variable {s} {s' : Shared cfg} {d : Dispatcher cfg} {new : List (Thread cfg)}

theorem loopStep_of_eq_some {pc : Loop} (h : s.processLoop d pc = some (s', new)) :
    s.LoopStep d pc s' new := by
  unfold processLoop at h
  split at h <;> try split at h
  all_goals cases h
  · exact .claim
  · exact .unclaim ‹_›
  · exact .retry (Bool.eq_false_iff.mpr ‹_›)
  · exact .wait ‹_›
  · exact .dispatch ‹_›
  · exact .resume ‹_›
  · exact .add
  · exact .finish

theorem jobStep_of_eq_some {req : Request} {code : JobExitCode} {pc : JobPc}
    (h : s.runJob d req code pc = some (s', new)) : s.JobStep d req code pc s' new := by
  cases pc with
  | executing =>
      cases code <;> cases h
      · exact .done
      · exact .reschedule
  | notifying =>
      obtain ⟨hfree, h⟩ := Option.ite_none_left_eq_some.mp h
      split at h <;> cases h
      · exact .free ‹_›
      · exact .next hfree ‹_›
  | completing =>
      cases h
      exact .complete
  | ending =>
      cases h
      exact .finish

end Shared

namespace State

variable (s : State cfg)

/-- The critical section of `enqueueWithKey`, up to `submitReq`. -/
def enqueueWithKey (type : JobType) (key : UInt64) : Option (State cfg) :=
  let shard := cfg.shardOf key
  let req : Request := ⟨s.enqueued.length, key, type⟩
  if s.locked shard then none
  else if s.shouldSpool shard then
    some { s with
      enqueued := s.enqueued ++ [req]
      pendingReqs := update s.pendingReqs shard (s.pendingReqs shard ++ [req]) }
  else
    some { s with
      enqueued := s.enqueued ++ [req]
      shouldSpool := update s.shouldSpool shard true
      locked := update s.locked shard true
      threads := s.threads ++ [.submitting (.caller shard) (.pushing req)] }

/-- `NavyRequestScheduler::finish` begins. -/
def finish : Option (State cfg) :=
  match s.finisher with
  | .idle | .returned => some { s with finisher := .draining cfg.dispatchers }
  | .draining _ | .waiting _ _ _ => none

end State

inductive Label where
  | enqueue (type : JobType) (key : UInt64)
  | run (i : ℕ) (code : JobExitCode)
  | finish
  | drain
  deriving DecidableEq, Repr

def step (cfg : Config) (s : State cfg) : Label → Option (State cfg)
  | .enqueue type key => s.enqueueWithKey type key
  | .run i code =>
      match s.threads[i]? with
      | none => none
      | some t =>
          (s.toShared.runThread code t).map fun (s', new) =>
            { s' with threads := Threads.replaceAt s.threads i new }
  | .finish => s.finish
  | .drain => s.toShared.drain.map fun s' => { s' with threads := s.threads }

/-- The state after the labels, from a scheduler without requests. -/
def exec (cfg : Config) (ls : List Label) : Option (State cfg) :=
  Transition.exec (step cfg) {} ls

end CacheLib.Navy.Scheduler
