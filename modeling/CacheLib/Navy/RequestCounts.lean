/-
The counters of the request scheduler: mutexes, dispatch loops, outstanding requests, the baton.

What a thread stands for is a list of roles: it holds the mutex of a shard, it has a request, it is
the dispatch loop of a dispatcher or one of its jobs, at some station. The state of the scheduler is
related to the threads by how many of them have each role, so a step of a thread is seen only
through the roles that go and come (`Moves`).
-/
import CacheLib.Navy.RequestScheduler

set_option autoImplicit false

namespace CacheLib.Navy.Scheduler

open Function List Option

open Threads (total replaceAt)

variable {cfg : Config}

/-! ## Roles -/

/-- Where a thread that works for a dispatcher stands. -/
inductive Station where
  | scheduling
  | starting
  | claiming
  | dispatching
  | waiting
  | adding
  | loopEnding
  | job
  | jobEnding
  deriving DecidableEq

theorem Station.forall_iff {P : Station → Prop} :
    (∀ st, P st) ↔ P .scheduling ∧ P .starting ∧ P .claiming ∧ P .dispatching ∧ P .waiting ∧
      P .adding ∧ P .loopEnding ∧ P .job ∧ P .jobEnding := by
  constructor
  · intro h
    exact ⟨h _, h _, h _, h _, h _, h _, h _, h _, h _⟩
  · rintro ⟨h₁, h₂, h₃, h₄, h₅, h₆, h₇, h₈, h₉⟩ st
    cases st <;> assumption

inductive Role (cfg : Config) where
  | mutex (shard : ℕ)
  | request (req : Request)
  /-- A job of the shard is done, and the scheduler has not been notified. -/
  | notifying (shard : ℕ)
  | station (st : Station) (d : Dispatcher cfg)
  deriving DecidableEq

def Submitter.roles : Submitter cfg → List (Role cfg)
  | caller shard => [.mutex shard]
  | job d req => [.mutex (cfg.shardOf req.key), .station .job d]

def Submission.roles : Submission cfg → List (Role cfg)
  | pushing req => [.request req]
  | scheduling d => [.station .scheduling d]
  | starting d => [.station .starting d]

def Loop.roles (d : Dispatcher cfg) : Loop → List (Role cfg)
  | claim => [.station .claiming d]
  | dispatch pending => .station .dispatching d :: pending.map .request
  | waiting req pending => .station .waiting d :: .request req :: pending.map .request
  | adding req pending => .station .adding d :: .request req :: pending.map .request
  | ending => [.station .loopEnding d]

def JobPc.roles (d : Dispatcher cfg) (req : Request) : JobPc → List (Role cfg)
  | executing => [.station .job d, .request req]
  | notifying => [.station .job d, .notifying (cfg.shardOf req.key)]
  | completing => [.station .job d]
  | ending => [.station .jobEnding d]

def Thread.roles : Thread cfg → List (Role cfg)
  | submitting who sub => who.roles ++ sub.roles
  | loop d pc => pc.roles d
  | job d req pc => pc.roles d req

/-- How many threads have the role -/
def State.num (s : State cfg) (ρ : Role cfg) : ℕ := total (fun t => t.roles.count ρ) s.threads

/-- The roles of thread `t` go, those of the threads `new` come. -/
structure Moves (num num' : Role cfg → ℕ) (t : Thread cfg) (new : List (Thread cfg)) : Prop where
  le : ∀ ρ, t.roles.count ρ ≤ num ρ
  eq : ∀ ρ, num' ρ + t.roles.count ρ = num ρ + (new.flatMap Thread.roles).count ρ

theorem count_flatMap_roles (new : List (Thread cfg)) (ρ : Role cfg) :
    (new.flatMap Thread.roles).count ρ = total (fun t => t.roles.count ρ) new := by
  rw [count_flatMap]
  rfl

theorem moves_replaceAt {ts : List (Thread cfg)} {i : ℕ} {t : Thread cfg} (h : ts[i]? = some t)
    (new : List (Thread cfg)) :
    Moves (fun ρ => total (fun t => t.roles.count ρ) ts)
      (fun ρ => total (fun t => t.roles.count ρ) (replaceAt ts i new)) t new := by
  constructor
  · intro ρ
    exact Threads.le_total (f := fun t => t.roles.count ρ) (mem_of_getElem? h)
  · intro ρ
    rw [count_flatMap_roles]
    exact Threads.total_replaceAt h new

/-- A role that as many of the new threads have as the one that goes -/
theorem Moves.num_eq {num num' : Role cfg → ℕ} {t : Thread cfg} {new : List (Thread cfg)}
    (hm : Moves num num' t new) {ρ : Role cfg}
    (hroles : (new.flatMap Thread.roles).count ρ = t.roles.count ρ) : num' ρ = num ρ := by
  have heq := hm.eq ρ
  omega

section Counts

variable (who : Submitter cfg) (reqs : List Request)

@[simp] theorem count_station_map_request (st : Station) (d : Dispatcher cfg) :
    (reqs.map Role.request).count (.station st d) = 0 := by
  simp [count_eq_zero]

@[simp] theorem count_mutex_map_request (k : ℕ) :
    (reqs.map (@Role.request cfg)).count (.mutex k) = 0 := by
  simp [count_eq_zero]

@[simp] theorem count_notifying_map_request (k : ℕ) :
    (reqs.map (@Role.request cfg)).count (.notifying k) = 0 := by
  simp [count_eq_zero]

@[simp] theorem count_request_map_request (r : Request) :
    (reqs.map (@Role.request cfg)).count (.request r) = reqs.count r := by
  apply count_map_of_injective
  intro a b hab
  exact Role.request.inj hab

/-- A submitter that is through keeps its roles, but for the mutex. -/
theorem count_roles_afterwards (ρ : Role cfg) :
    (who.afterwards.flatMap Thread.roles).count ρ + [.mutex who.shard].count ρ
      = who.roles.count ρ := by
  cases who with
  | caller shard => simp [Submitter.afterwards, Submitter.roles, Submitter.shard]
  | job d req =>
      simp only [Submitter.afterwards, Submitter.roles, Submitter.shard, Thread.roles, JobPc.roles,
        flatMap_cons, flatMap_nil, append_nil, count_cons, count_nil]
      omega

theorem count_afterwards {ρ : Role cfg} (hρ : ∀ k, ρ ≠ .mutex k) :
    (who.afterwards.flatMap Thread.roles).count ρ = who.roles.count ρ := by
  have hcount := count_roles_afterwards who ρ
  rwa [count_singleton, if_neg (by simpa using fun h => hρ _ h.symm)] at hcount

theorem count_map_station (stations : List Station) (d e : Dispatcher cfg) (st : Station) :
    (stations.map fun st => Role.station st d).count (.station st e)
      = if e = d then stations.count st else 0 := by
  by_cases he : e = d
  · subst he
    rw [if_pos rfl]
    apply count_map_of_injective _ (fun st => Role.station st e)
    intro a b hab
    exact (Role.station.inj hab).1
  · rw [if_neg he, count_eq_zero]
    intro hmem
    obtain ⟨st', -, heq⟩ := mem_map.mp hmem
    exact he (Role.station.inj heq).2.symm

end Counts

/-! ## One dispatcher -/

/-- The counters of a dispatcher are those of its threads, of which `n` says how many there are at
each station. -/
structure CountedAt (maxOutstanding : ℕ) (incoming : Incoming) (numOutstanding : ℕ) (posted : Bool)
    (numRunning : ℕ) (n : Station → ℕ) : Prop where
  /-- There is one dispatch loop, or one that is about to be started, unless the incoming list is
  null. -/
  loops : n .scheduling + n .starting + n .claiming + n .dispatching + n .waiting + n .adding
    = if incoming.isNull then 0 else 1
  claimed : incoming.claimed = false → n .dispatching + n .waiting + n .adding = 0
  /-- A loop that goes for the list finds something in it. -/
  filled : incoming.reqs = [] → n .scheduling + n .starting + n .claiming = 0
  outstanding : numOutstanding = n .adding + n .job
  limit : numOutstanding ≤ maxOutstanding
  /-- A loop that waits has been woken, or the limit is still reached. -/
  baton : 0 < n .waiting →
    if posted then numOutstanding < maxOutstanding else numOutstanding = maxOutstanding
  running : numRunning = n .starting + n .claiming + n .dispatching + n .waiting + n .adding
    + n .loopEnding + n .job + n .jobEnding

section Desks

variable {m : ℕ} {q : Incoming} {out : ℕ} {posted : Bool} {run : ℕ} {n n' : Station → ℕ}

/-- The threads at each station when some have gone and some have come. -/
def Goes (n n' : Station → ℕ) (gone come : List Station) : Prop :=
  (∀ st, gone.count st ≤ n st) ∧ ∀ st, n' st + gone.count st = n st + come.count st

namespace CountedAt

variable (h : CountedAt m q out posted run n)

include h

theorem loops_le : n .scheduling + n .starting + n .claiming + n .dispatching + n .waiting
    + n .adding ≤ 1 := by
  rw [h.loops]
  split <;> omega

theorem relocate {run' : ℕ}
    (hloops : n' .scheduling + n' .starting + n' .claiming + n' .dispatching + n' .waiting
        + n' .adding
      = n .scheduling + n .starting + n .claiming + n .dispatching + n .waiting + n .adding)
    (hclaimed : n' .dispatching + n' .waiting + n' .adding
      ≤ n .dispatching + n .waiting + n .adding)
    (hfilled : n' .scheduling + n' .starting + n' .claiming
      ≤ n .scheduling + n .starting + n .claiming)
    (hout : n' .adding + n' .job = n .adding + n .job) (hwait : n' .waiting ≤ n .waiting)
    (hrun : run' = n' .starting + n' .claiming + n' .dispatching + n' .waiting + n' .adding
      + n' .loopEnding + n' .job + n' .jobEnding) :
    CountedAt m q out posted run' n' where
  loops := hloops.trans h.loops
  claimed hq := Nat.eq_zero_of_le_zero (hclaimed.trans (h.claimed hq).le)
  filled hq := Nat.eq_zero_of_le_zero (hfilled.trans (h.filled hq).le)
  outstanding := h.outstanding.trans hout.symm
  limit := h.limit
  baton hpos := h.baton (hpos.trans_le hwait)
  running := hrun

theorem push_null (r : Request) (hnull : q.isNull) (hgoes : Goes n n' [] [.scheduling]) :
    CountedAt m { q with reqs := r :: q.reqs } out posted run n' := by
  obtain ⟨hloops, hclaimed, -, hout, hlimit, hbaton, hrun⟩ := h
  rw [if_pos hnull] at hloops
  simp [Goes, Station.forall_iff] at hgoes
  refine ⟨?_, fun _ => by omega, nofun, by omega, hlimit, fun hwait => by omega, by omega⟩
  simp only [Incoming.isNull, isEmpty_cons, Bool.false_and, Bool.false_eq_true, if_false]
  omega

theorem push (r : Request) (hnull : q.isNull = false) (hgoes : Goes n n' [] []) :
    CountedAt m { q with reqs := r :: q.reqs } out posted run n' := by
  have hn : n' = n := funext fun st => by simpa using hgoes.2 st
  subst hn
  have hloops := h.loops
  rw [hnull] at hloops
  exact { h with
    loops := by simpa [Incoming.isNull] using hloops
    filled := nofun }

theorem schedule (hgoes : Goes n n' [.scheduling] [.starting]) :
    CountedAt m q out posted (run + 1) n' := by
  have hrun := h.running
  simp [Goes, Station.forall_iff] at hgoes
  apply h.relocate <;> omega

theorem start (hgoes : Goes n n' [.starting] [.claiming]) : CountedAt m q out posted run n' := by
  have hrun := h.running
  simp [Goes, Station.forall_iff] at hgoes
  apply h.relocate <;> omega

theorem claim (hgoes : Goes n n' [.claiming] [.dispatching]) :
    CountedAt m ⟨[], true⟩ out posted run n' := by
  have hone := h.loops_le
  obtain ⟨-, -, -, hout, hlimit, hbaton, hrun⟩ := h
  simp [Goes, Station.forall_iff] at hgoes
  refine ⟨?_, nofun, fun _ => by omega, by omega, hlimit, fun hwait => hbaton (by omega), by omega⟩
  simp only [Incoming.isNull, Bool.not_true, Bool.and_false, Bool.false_eq_true, if_false]
  omega

/-- The loop takes the sentinel off, and there is no loop any more. -/
theorem unclaim (hgoes : Goes n n' [.dispatching] [.loopEnding]) :
    CountedAt m ⟨[], false⟩ out posted run n' := by
  have hone := h.loops_le
  obtain ⟨-, -, -, hout, hlimit, hbaton, hrun⟩ := h
  simp [Goes, Station.forall_iff] at hgoes
  refine ⟨?_, fun _ => by omega, fun _ => by omega, by omega, hlimit, fun hwait => by omega,
    by omega⟩
  simp only [Incoming.isNull, isEmpty_nil, Bool.not_false, Bool.and_self, if_true]
  omega

/-- Something was pushed on top of the sentinel: the loop goes for the list again. -/
theorem retry (hq : q.isSentinel = false) (hgoes : Goes n n' [.dispatching] [.claiming]) :
    CountedAt m q out posted run n' := by
  obtain ⟨hloops, hclaimed, hfilled, hout, hlimit, hbaton, hrun⟩ := h
  simp [Goes, Station.forall_iff] at hgoes
  refine ⟨by omega, fun hfree => ?_, fun hempty => ?_, by omega, hlimit,
    fun hwait => hbaton (by omega), by omega⟩
  · have hzero := hclaimed hfree
    omega
  · have hfree : q.claimed = false := by simpa [Incoming.isSentinel, hempty] using hq
    have hzero := hclaimed hfree
    omega

theorem wait (hout : out = m) (hgoes : Goes n n' [.dispatching] [.waiting]) :
    CountedAt m q out false run n' := by
  obtain ⟨hloops, hclaimed, hfilled, hout', hlimit, -, hrun⟩ := h
  simp [Goes, Station.forall_iff] at hgoes
  refine ⟨by omega, fun hq => ?_, fun hq => ?_, by omega, hlimit, fun _ => by simpa using hout,
    by omega⟩
  · have hzero := hclaimed hq
    omega
  · have hzero := hfilled hq
    omega

/-- The loop goes on with a request, below the limit; no other loop waits. -/
theorem dispatch (hout : out ≠ m) (hgoes : Goes n n' [.dispatching] [.adding]) :
    CountedAt m q (out + 1) posted run n' := by
  have hone := h.loops_le
  obtain ⟨hloops, hclaimed, hfilled, hout', hlimit, -, hrun⟩ := h
  simp [Goes, Station.forall_iff] at hgoes
  refine ⟨by omega, fun hq => ?_, fun hq => ?_, by omega, by omega, fun hwait => by omega, by omega⟩
  · have hzero := hclaimed hq
    omega
  · have hzero := hfilled hq
    omega

theorem resume (hposted : posted = true) (hgoes : Goes n n' [.waiting] [.adding]) :
    CountedAt m q (out + 1) posted run n' := by
  have hone := h.loops_le
  obtain ⟨hloops, hclaimed, hfilled, hout', hlimit, hbaton, hrun⟩ := h
  simp [Goes, Station.forall_iff] at hgoes
  rw [if_pos hposted] at hbaton
  have hlt := hbaton (by omega)
  refine ⟨by omega, fun hq => ?_, fun hq => ?_, by omega, by omega, fun hwait => by omega, by omega⟩
  · have hzero := hclaimed hq
    omega
  · have hzero := hfilled hq
    omega

theorem add (hgoes : Goes n n' [.adding] [.dispatching, .job]) :
    CountedAt m q out posted (run + 1) n' := by
  have hrun := h.running
  simp [Goes, Station.forall_iff] at hgoes
  apply h.relocate <;> omega

theorem endLoop (hgoes : Goes n n' [.loopEnding] []) : CountedAt m q out posted (run - 1) n' := by
  have hrun := h.running
  simp [Goes, Station.forall_iff] at hgoes
  apply h.relocate <;> omega

/-- The first job that ends while the limit is reached posts the baton. -/
theorem complete (hgoes : Goes n n' [.job] [.jobEnding]) :
    CountedAt m q (out - 1) (if out - 1 + 1 = m then true else posted) run n' := by
  obtain ⟨hloops, hclaimed, hfilled, hout, hlimit, hbaton, hrun⟩ := h
  simp [Goes, Station.forall_iff] at hgoes
  refine ⟨by omega, fun hq => ?_, fun hq => ?_, by omega, by omega, fun hwait => ?_, by omega⟩
  · have hzero := hclaimed hq
    omega
  · have hzero := hfilled hq
    omega
  · have hbaton := hbaton (by omega)
    by_cases hlast : out - 1 + 1 = m
    · rw [if_pos hlast, if_pos rfl]
      omega
    -- Below the limit, the loop has been woken before.
    · rw [if_neg hlast]
      cases hposted : posted with
      | true =>
          rw [if_pos hposted] at hbaton
          rw [if_pos rfl]
          omega
      | false =>
          rw [if_neg (by simp [hposted])] at hbaton
          omega

theorem endJob (hgoes : Goes n n' [.jobEnding] []) : CountedAt m q out posted (run - 1) n' := by
  have hrun := h.running
  simp [Goes, Station.forall_iff] at hgoes
  apply h.relocate <;> omega

end CountedAt

end Desks

/-! ## All dispatchers -/

/-- The counters of the scheduler and the dispatchers are those of the threads. -/
structure Counted (s : Shared cfg) (num : Role cfg → ℕ) : Prop where
  mutex : ∀ k, num (.mutex k) = if s.locked k then 1 else 0
  desks : ∀ d, CountedAt (cfg.maxOutstanding d) (s.incomingReqs d) (s.numOutstanding d) (s.posted d)
    (s.numRunning d) fun st => num (.station st d)

section Counted

variable {s s' : Shared cfg} {num num' : Role cfg → ℕ} {t : Thread cfg} {new : List (Thread cfg)}

/-- The mutexes, in a step that takes and releases none. -/
theorem Counted.mutex_of_moves (h : Counted s num) (hm : Moves num num' t new)
    (hroles : ∀ k, (new.flatMap Thread.roles).count (.mutex k) = t.roles.count (.mutex k)) (k : ℕ) :
    num' (.mutex k) = if s.locked k then 1 else 0 := by
  rw [hm.num_eq (hroles k)]
  exact h.mutex k

section Desk

variable (h : Counted s num) (hm : Moves num num' t new) (d : Dispatcher cfg)
  (gone come : List Station)
  (hdesk : Goes (fun st => num (.station st d)) (fun st => num' (.station st d)) gone come →
    CountedAt (cfg.maxOutstanding d) (s'.incomingReqs d) (s'.numOutstanding d) (s'.posted d)
      (s'.numRunning d) fun st => num' (.station st d))
  (hother : ∀ e, e ≠ d → s'.incomingReqs e = s.incomingReqs e ∧
    s'.numOutstanding e = s.numOutstanding e ∧ s'.posted e = s.posted e ∧
    s'.numRunning e = s.numRunning e)

include h hm hdesk hother

/-- **A step of a thread changes one dispatcher at most.** -/
theorem Counted.of_goes (base : Station → Dispatcher cfg → ℕ)
    (hgone : ∀ st e, t.roles.count (Role.station st e)
      = (gone.map fun st => Role.station st d).count (Role.station st e) + base st e)
    (hcome : ∀ st e, (new.flatMap Thread.roles).count (Role.station st e)
      = (come.map fun st => Role.station st d).count (Role.station st e) + base st e)
    (hmutex : ∀ k, num' (.mutex k) = if s'.locked k then 1 else 0) : Counted s' num' := by
  have heq : ∀ st e, num' (.station st e) + (if e = d then gone.count st else 0)
      = num (.station st e) + if e = d then come.count st else 0 := by
    intro st e
    have heq := hm.eq (.station st e)
    rw [hgone, hcome, count_map_station, count_map_station] at heq
    omega
  refine ⟨hmutex, fun e => ?_⟩
  by_cases he : e = d
  · subst he
    apply hdesk
    constructor
    · intro st
      have hle := hm.le (.station st e)
      rw [hgone, count_map_station, if_pos rfl] at hle
      dsimp only
      omega
    · intro st
      simpa using heq st e
  · obtain ⟨hincoming, hout, hposted, hrun⟩ := hother e he
    have hnum : ∀ st, num' (.station st e) = num (.station st e) := by
      intro st
      simpa [he] using heq st e
    rw [hincoming, hout, hposted, hrun, funext hnum]
    exact h.desks e

theorem Counted.of_stations
    (hgone : ∀ st e, t.roles.count (Role.station st e)
      = (gone.map fun st => Role.station st d).count (Role.station st e))
    (hcome : ∀ st e, (new.flatMap Thread.roles).count (Role.station st e)
      = (come.map fun st => Role.station st d).count (Role.station st e))
    (hroles : ∀ k, (new.flatMap Thread.roles).count (.mutex k) = t.roles.count (.mutex k))
    (hlocked : s'.locked = s.locked) : Counted s' num' :=
  h.of_goes hm d gone come hdesk hother (fun _ _ => 0) hgone hcome
    (hlocked ▸ h.mutex_of_moves hm hroles)

end Desk

/-- A step in which no thread changes its station -/
theorem Counted.of_same (h : Counted s num) (hm : Moves num num' t new)
    (hroles : ∀ st e, (new.flatMap Thread.roles).count (.station st e)
      = t.roles.count (.station st e))
    (hmutex : ∀ k, num' (.mutex k) = if s'.locked k then 1 else 0)
    (hincoming : s'.incomingReqs = s.incomingReqs) (hout : s'.numOutstanding = s.numOutstanding)
    (hposted : s'.posted = s.posted) (hrun : s'.numRunning = s.numRunning) : Counted s' num' := by
  refine ⟨hmutex, fun e => ?_⟩
  have hnum : ∀ st, num' (.station st e) = num (.station st e) := fun st => hm.num_eq (hroles st e)
  rw [hincoming, hout, hposted, hrun, funext hnum]
  exact h.desks e

/-- The mutexes, in a step at the end of `submitReq`. -/
theorem Counted.mutex_of_release (h : Counted s num) {who : Submitter cfg}
    {sub : Submission cfg} (started : List (Thread cfg))
    (hm : Moves num num' (.submitting who sub) (who.afterwards ++ started))
    (hsub : ∀ k, sub.roles.count (.mutex k) = 0)
    (hstarted : ∀ k, (started.flatMap Thread.roles).count (.mutex k) = 0) (k : ℕ) :
    num' (.mutex k) = if update s.locked who.shard false k then 1 else 0 := by
  have hle := hm.le (.mutex k)
  have heq := hm.eq (.mutex k)
  have hafter := count_roles_afterwards who (.mutex k)
  have hmutex := h.mutex k
  rw [Thread.roles, count_append, hsub] at hle heq
  rw [flatMap_append, count_append, hstarted] at heq
  by_cases hk : k = who.shard
  · subst hk
    rw [count_singleton_self] at hafter
    rw [update_self, if_neg Bool.false_ne_true]
    split at hmutex <;> omega
  · rw [count_singleton, if_neg (by simpa using fun h => hk h.symm)] at hafter
    rw [update_of_ne hk]
    omega

attribute [local simp] Thread.roles Loop.roles JobPc.roles Submission.roles count_cons

theorem Counted.submitReq (h : Counted s num) {who : Submitter cfg} {sub : Submission cfg}
    (hm : Moves num num' (.submitting who sub) (s.submitReq who sub).2) :
    Counted (s.submitReq who sub).1 num' := by
  cases sub with
  | pushing req =>
      simp only [Shared.submitReq] at hm ⊢
      cases hnull : (s.incomingReqs (cfg.getDispatcher req.key req.type)).isNull with
      | true =>
          rw [hnull] at hm
          refine h.of_goes hm (cfg.getDispatcher req.key req.type) [] [.scheduling] ?_ ?_
            (fun st e => who.roles.count (.station st e)) ?_ ?_ ?_
          · intro hgoes
            simpa [Shared.setIncoming] using (h.desks _).push_null req hnull hgoes
          · intro e he
            exact ⟨update_of_ne he _ _, rfl, rfl, rfl⟩
          · intro st e
            simp
          · intro st e
            simp
            omega
          · exact h.mutex_of_moves hm (by simp)
      | false =>
          rw [hnull] at hm
          refine h.of_goes hm (cfg.getDispatcher req.key req.type) [] [] ?_ ?_
            (fun st e => who.roles.count (.station st e)) ?_ ?_ ?_
          · intro hgoes
            simpa [Shared.setIncoming, Shared.setLocked] using (h.desks _).push req hnull hgoes
          · intro e he
            exact ⟨update_of_ne he _ _, rfl, rfl, rfl⟩
          · intro st e
            simp
          · intro st e
            simp [count_afterwards]
          · exact h.mutex_of_release [] (by simpa using hm) (by simp) (by simp)
  | scheduling d =>
      refine h.of_goes hm d [.scheduling] [.starting] ?_ ?_
        (fun st e => who.roles.count (.station st e)) ?_ ?_ ?_
      · intro hgoes
        simpa [Shared.submitReq, Shared.incRunning] using (h.desks d).schedule hgoes
      · intro e he
        exact ⟨rfl, rfl, rfl, update_of_ne he _ _⟩
      · intro st e
        simp
        omega
      · intro st e
        simp [Shared.submitReq]
        omega
      · exact h.mutex_of_moves hm (by simp [Shared.submitReq])
  | starting d =>
      refine h.of_goes hm d [.starting] [.claiming] (h.desks d).start
        (fun _ _ => ⟨rfl, rfl, rfl, rfl⟩) (fun st e => who.roles.count (.station st e)) ?_ ?_ ?_
      · intro st e
        simp
        omega
      · intro st e
        simp [Shared.submitReq, count_afterwards]
        omega
      · exact h.mutex_of_release [.loop d .claim] hm (by simp) (by simp)

theorem Counted.processLoop (h : Counted s num) {d : Dispatcher cfg} {pc : Loop}
    (hstep : s.LoopStep d pc s' new) (hm : Moves num num' (.loop d pc) new) : Counted s' num' := by
  cases hstep with
  | claim =>
      refine h.of_stations hm d [.claiming] [.dispatching] ?_ ?_ (by simp) (by simp) (by simp) rfl
      · intro hgoes
        simpa [Shared.setIncoming] using (h.desks d).claim hgoes
      · intro e he
        exact ⟨update_of_ne he _ _, rfl, rfl, rfl⟩
  | unclaim =>
      refine h.of_stations hm d [.dispatching] [.loopEnding] ?_ ?_ (by simp) (by simp) (by simp) rfl
      · intro hgoes
        simpa [Shared.setIncoming] using (h.desks d).unclaim hgoes
      · intro e he
        exact ⟨update_of_ne he _ _, rfl, rfl, rfl⟩
  | retry hq =>
      exact h.of_stations hm d [.dispatching] [.claiming] ((h.desks d).retry hq)
        (fun _ _ => ⟨rfl, rfl, rfl, rfl⟩) (by simp) (by simp) (by simp) rfl
  | wait hout =>
      refine h.of_stations hm d [.dispatching] [.waiting] ?_ ?_ (by simp) (by simp) (by simp) rfl
      · intro hgoes
        simpa using (h.desks d).wait hout hgoes
      · intro e he
        exact ⟨rfl, rfl, update_of_ne he _ _, rfl⟩
  | dispatch hout =>
      refine h.of_stations hm d [.dispatching] [.adding] ?_ ?_ (by simp) (by simp) (by simp) rfl
      · intro hgoes
        simpa [Shared.incOutstanding] using (h.desks d).dispatch hout hgoes
      · intro e he
        exact ⟨rfl, update_of_ne he _ _, rfl, rfl⟩
  | resume hposted =>
      refine h.of_stations hm d [.waiting] [.adding] ?_ ?_ (by simp) (by simp) (by simp) rfl
      · intro hgoes
        simpa [Shared.incOutstanding] using (h.desks d).resume hposted hgoes
      · intro e he
        exact ⟨rfl, update_of_ne he _ _, rfl, rfl⟩
  | add =>
      refine h.of_stations hm d [.adding] [.dispatching, .job] ?_ ?_ (by simp) (by simp) (by simp) rfl
      · intro hgoes
        simpa [Shared.incRunning] using (h.desks d).add hgoes
      · intro e he
        exact ⟨rfl, rfl, rfl, update_of_ne he _ _⟩
  | finish =>
      refine h.of_stations hm d [.loopEnding] [] ?_ ?_ (by simp) (by simp) (by simp) rfl
      · intro hgoes
        simpa [Shared.decRunning] using (h.desks d).endLoop hgoes
      · intro e he
        exact ⟨rfl, rfl, rfl, update_of_ne he _ _⟩

theorem Counted.runJob (h : Counted s num) {d : Dispatcher cfg} {req : Request} {code : JobExitCode}
    {pc : JobPc} (hstep : s.JobStep d req code pc s' new) (hm : Moves num num' (.job d req pc) new) :
    Counted s' num' := by
  cases hstep with
  | reschedule | done | free =>
      exact h.of_same hm (by simp) (h.mutex_of_moves hm (by simp)) rfl rfl rfl rfl
  | next hfree =>
      refine h.of_same hm (by simp [Submitter.roles]) ?_ rfl rfl rfl rfl
      intro k
      have heq := hm.eq (.mutex k)
      have hmutex := h.mutex k
      simp [Submitter.roles] at heq
      by_cases hk : k = cfg.shardOf req.key
      · subst hk
        rw [if_neg hfree] at hmutex
        simp [Shared.setLocked, heq, hmutex]
      · simp only [Shared.setLocked, update_of_ne hk]
        rw [if_neg (fun h => hk h.symm)] at heq
        omega
  | complete =>
      refine h.of_stations hm d [.job] [.jobEnding] ?_ ?_ (by simp) (by simp) (by simp) rfl
      · intro hgoes
        have hposted : (s.decOutstanding d).posted d
            = if s.numOutstanding d - 1 + 1 = cfg.maxOutstanding d then true else s.posted d := by
          simp only [Shared.decOutstanding]
          split
          · exact update_self _ _ _
          · rfl
        rw [hposted]
        simpa [Shared.decOutstanding] using (h.desks d).complete hgoes
      · intro e he
        refine ⟨rfl, update_of_ne he _ _, ?_, rfl⟩
        simp only [Shared.decOutstanding]
        split
        · exact update_of_ne he _ _
        · rfl
  | finish =>
      refine h.of_stations hm d [.jobEnding] [] ?_ ?_ (by simp) (by simp) (by simp) rfl
      · intro hgoes
        simpa [Shared.decRunning] using (h.desks d).endJob hgoes
      · intro e he
        exact ⟨rfl, rfl, rfl, update_of_ne he _ _⟩

theorem Counted.runThread (h : Counted s num) {code : JobExitCode}
    (hstep : s.runThread code t = some (s', new)) (hm : Moves num num' t new) : Counted s' num' := by
  cases t with
  | submitting who sub =>
      obtain rfl : (s.submitReq who sub).1 = s' := congrArg Prod.fst (some.inj hstep)
      obtain rfl : (s.submitReq who sub).2 = new := congrArg Prod.snd (some.inj hstep)
      exact h.submitReq hm
  | loop d pc => exact h.processLoop (Shared.loopStep_of_eq_some hstep) hm
  | job d req pc => exact h.runJob (Shared.jobStep_of_eq_some hstep) hm

end Counted

end CacheLib.Navy.Scheduler
