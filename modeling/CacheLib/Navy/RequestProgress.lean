/-
What the request scheduler guarantees.

That every job is executed until it is done has two parts. As long as a job is not done some thread
has a step to make, so nothing waits for ever. And each step that is not a reschedule makes the work
that is left smaller, so the threads do not keep each other busy without end.
-/
import CacheLib.Navy.RequestOrder
import Mathlib.Data.List.Perm.Subperm

set_option autoImplicit false

namespace CacheLib.Navy.Scheduler

open Thread List Option
open Threads (total replaceAt)

variable {cfg : Config} {s s' : State cfg} {t : Thread cfg} {d : Dispatcher cfg} {req : Request}

theorem num_pos {ρ : Role cfg} (hmem : t ∈ s.threads) (hrole : ρ ∈ t.roles) :
    0 < s.num ρ :=
  Nat.lt_of_lt_of_le (count_pos_iff.mpr hrole)
    (Threads.le_total (f := fun t => t.roles.count ρ) hmem)

theorem exists_of_num_pos {ρ : Role cfg} (hpos : 0 < s.num ρ) : ∃ t ∈ s.threads, ρ ∈ t.roles := by
  obtain ⟨t, hmem, ht⟩ := Threads.exists_of_total_pos hpos
  exact ⟨t, hmem, count_pos_iff.mp ht⟩

/-! ## The requests that are done -/

theorem nodup_of_ids {reqs : List Request}
    (hids : ∀ (i : ℕ) (req : Request), reqs[i]? = some req → req.id = i) : reqs.Nodup := by
  rw [nodup_iff_getElem?_ne_getElem?]
  intro i j hij hj heq
  rw [getElem?_eq_getElem hj] at heq
  have hi := hids i _ heq
  have hj := hids j _ (getElem?_eq_getElem hj)
  omega

theorem count_ofShard (req : Request) (reqs : List Request) :
    (ofShard cfg (cfg.shardOf req.key) reqs).count req = reqs.count req := by
  apply count_filter
  simp

section Progress

variable (h : Invariant s)

include h

theorem Invariant.done_initial (k : ℕ) :
    ofShard cfg k s.done <+: ofShard cfg k s.enqueued := by
  obtain ⟨-, tok, hordered⟩ := h
  rw [hordered.order k, append_assoc]
  exact prefix_append _ _

theorem Invariant.nodup_done : s.done.Nodup := by
  have hinitial := h.done_initial
  obtain ⟨-, tok, hordered⟩ := h
  rw [nodup_iff_count_le_one]
  intro req
  calc s.done.count req
      = (ofShard cfg (cfg.shardOf req.key) s.done).count req := (count_ofShard req s.done).symm
    _ ≤ (ofShard cfg (cfg.shardOf req.key) s.enqueued).count req :=
        (hinitial _).sublist.count_le req
    _ = s.enqueued.count req := count_ofShard req s.enqueued
    _ ≤ 1 := nodup_iff_count_le_one.mp (nodup_of_ids hordered.ids) req

theorem Invariant.mem_enqueued_of_mem_done
    (hmem : req ∈ s.done) : req ∈ s.enqueued := by
  have hshard : req ∈ ofShard cfg (cfg.shardOf req.key) s.done := mem_ofShard.mpr ⟨hmem, rfl⟩
  exact (mem_ofShard.mp ((h.done_initial _).subset hshard)).1

theorem Invariant.length_done_le : s.done.length ≤ s.enqueued.length := by
  apply Subperm.length_le
  apply subperm_of_subset h.nodup_done
  intro req hmem
  exact h.mem_enqueued_of_mem_done hmem

/-- A job that is executed is the next one of its shard. -/
theorem Invariant.executing_next
    (hmem : .job d req .executing ∈ s.threads) :
    ofShard cfg (cfg.shardOf req.key) s.done ++ [req]
      <+: ofShard cfg (cfg.shardOf req.key) s.enqueued := by
  obtain ⟨-, tok, hordered⟩ := h
  have hpos : 0 < s.num (.request req) := num_pos hmem (by simp [roles, JobPc.roles])
  rw [hordered.order, hordered.active_of_pos hpos]
  exact prefix_append _ _

/-! ## Threads of a kind -/

namespace Thread

/-- It executes a job of the shard. -/
def executesIn (k : ℕ) : Thread cfg → Bool
  | job _ req .executing => cfg.shardOf req.key = k
  | _ => false

/-- It is an active dispatch loop. -/
def isLoopOf (d : Dispatcher cfg) : Thread cfg → Bool
  | loop d' pc => d' = d ∧ pc ≠ .ending
  | _ => false

/-- It is the fiber of a request that is outstanding. -/
def isJobOf (d : Dispatcher cfg) : Thread cfg → Bool
  | job d' _ pc => d' = d ∧ pc ≠ .ending
  | submitting (.job d' _) _ => d' = d
  | _ => false

/-- It is about to start a dispatch loop. -/
def startsLoop (d : Dispatcher cfg) : Thread cfg → Bool
  | submitting _ (.scheduling d') => d' = d
  | submitting _ (.starting d') => d' = d
  | _ => false

end Thread

/-- One job of a shard is executed at a time. -/
theorem Invariant.executes_one (k : ℕ) :
    s.threads.countP (·.executesIn k) ≤ 1 := by
  obtain ⟨-, tok, hordered⟩ := h
  -- Whoever executes a job of the shard has the request that is out.
  have hactive : ∀ t ∈ s.threads, t.executesIn k = true →
      ∃ req, tok k = .active req ∧ .request req ∈ t.roles := by
    intro t hmem ht
    rcases t with _ | _ | ⟨d, req, _ | _ | _ | _⟩ <;> try exact absurd ht Bool.false_ne_true
    have hrole : Role.request req ∈ (job d req .executing).roles := by
      simp [roles, JobPc.roles]
    have hk : cfg.shardOf req.key = k := of_decide_eq_true ht
    exact ⟨req, hk ▸ hordered.active_of_pos (num_pos hmem hrole), hrole⟩
  by_cases hany : ∃ t ∈ s.threads, t.executesIn k = true
  · obtain ⟨t, hmem, ht⟩ := hany
    obtain ⟨req, htok, -⟩ := hactive t hmem ht
    calc s.threads.countP (·.executesIn k)
        ≤ s.num (.request req) := by
          apply Threads.countP_le_total
          intro u hu hexec
          obtain ⟨req', htok', hrole⟩ := hactive u hu hexec
          rw [htok, Token.active.injEq] at htok'
          exact count_pos_iff.mpr (htok' ▸ hrole)
      _ ≤ 1 := by
          have hone := hordered.requests req
          split at hone <;> omega
  · rw [countP_eq_zero.mpr fun t hmem ht => hany ⟨t, hmem, ht⟩]
    exact Nat.zero_le 1

theorem Invariant.one_loop (d : Dispatcher cfg) :
    s.threads.countP (·.isLoopOf d) ≤ 1 := by
  have hloops := (h.counted.desks d).loops_le
  have hle : s.threads.countP (·.isLoopOf d) ≤ s.num (.station .claiming d)
      + s.num (.station .dispatching d) + s.num (.station .waiting d)
      + s.num (.station .adding d) := by
    simp only [State.num, ← Threads.total_add]
    apply Threads.countP_le_total
    intro t _ ht
    rcases t with _ | ⟨d', pc⟩ | _ <;> try exact absurd ht Bool.false_ne_true
    obtain ⟨rfl, hpc⟩ := of_decide_eq_true ht
    cases pc <;> simp [roles, Loop.roles] at hpc ⊢
  omega

theorem Invariant.jobs_le (d : Dispatcher cfg) :
    s.threads.countP (·.isJobOf d) ≤ cfg.maxOutstanding d := by
  have hdesk := h.counted.desks d
  have hout := hdesk.outstanding
  have hlimit := hdesk.limit
  have hle : s.threads.countP (·.isJobOf d) ≤ s.num (.station .job d) := by
    apply Threads.countP_le_total
    intro t _ ht
    rcases t with ⟨_ | ⟨d', req⟩, sub⟩ | _ | ⟨d', req, pc⟩ <;>
      try exact absurd ht Bool.false_ne_true
    · have hd := of_decide_eq_true ht
      simp [roles, Submitter.roles, hd]
    · obtain ⟨rfl, hpc⟩ := of_decide_eq_true ht
      cases pc <;> simp [roles, JobPc.roles] at hpc ⊢
  omega

/-- What is in an incoming list has a dispatch loop, or one that is being started. -/
theorem Invariant.loop_of_incoming
    (hreqs : (s.incomingReqs d).reqs ≠ []) :
    ∃ t ∈ s.threads, t.isLoopOf d = true ∨ t.startsLoop d = true := by
  have hloops := (h.counted.desks d).loops
  have hnull : (s.incomingReqs d).isNull = false := by
    simp [Incoming.isNull, hreqs]
  rw [hnull] at hloops
  have hpos : 0 < total (fun t : Thread cfg => t.roles.count (.station .scheduling d)
      + t.roles.count (.station .starting d) + t.roles.count (.station .claiming d)
      + t.roles.count (.station .dispatching d) + t.roles.count (.station .waiting d)
      + t.roles.count (.station .adding d)) s.threads := by
    simp only [Threads.total_add]
    exact Nat.lt_of_lt_of_eq Nat.one_pos hloops.symm
  obtain ⟨t, hmem, ht⟩ := Threads.exists_of_total_pos hpos
  refine ⟨t, hmem, ?_⟩
  rcases t with ⟨who, sub⟩ | ⟨d', pc⟩ | ⟨d', req, pc⟩
  · right
    cases who <;> cases sub <;>
      simp [roles, Submitter.roles, Submission.roles, startsLoop,
        count_cons] at ht ⊢
    all_goals
      by_contra hne
      rw [if_neg hne] at ht
      exact absurd ht (Nat.lt_irrefl 0)
  · left
    cases pc <;> simp [roles, Loop.roles, isLoopOf, count_cons] at ht ⊢
    all_goals
      by_contra hne
      rw [if_neg hne] at ht
      exact absurd ht (Nat.lt_irrefl 0)
  · cases pc <;> simp [roles, JobPc.roles] at ht

/-! ## Progress -/

/-- Some thread has a step to make. -/
def CanMove (s : State cfg) : Prop := ∃ i s', step cfg s (.run i .done) = some s'

omit h in
theorem canMove_of_mem (hmem : t ∈ s.threads)
    (hmoves : (s.toShared.runThread .done t).isSome) : CanMove s := by
  obtain ⟨i, hi⟩ := mem_iff_getElem?.mp hmem
  obtain ⟨⟨shared, new⟩, hrun⟩ := isSome_iff_exists.mp hmoves
  exact ⟨i, _, step_run_eq_some.mpr ⟨t, shared, new, hi, hrun, rfl⟩⟩

/-- Whoever has a mutex gives it back. -/
theorem Invariant.canMove_of_locked {k : ℕ} (hlocked : s.locked k = true) :
    CanMove s := by
  have hmutex := h.counted.mutex k
  rw [if_pos hlocked] at hmutex
  obtain ⟨t, hmem, hrole⟩ := exists_of_num_pos (Nat.lt_of_lt_of_eq Nat.one_pos hmutex.symm)
  rcases t with ⟨who, sub⟩ | ⟨d', pc⟩ | ⟨d', req, pc⟩
  · exact canMove_of_mem hmem rfl
  · cases pc <;> simp [roles, Loop.roles] at hrole
  · cases pc <;> simp [roles, JobPc.roles] at hrole

/-- An outstanding job goes on, unless it waits for a mutex. -/
theorem Invariant.canMove_of_job
    (hpos : 0 < s.num (.station .job d)) : CanMove s := by
  obtain ⟨t, hmem, hrole⟩ := exists_of_num_pos hpos
  rcases t with ⟨who, sub⟩ | ⟨d', pc⟩ | ⟨d', req, pc⟩
  · exact canMove_of_mem hmem rfl
  · cases pc <;> simp [roles, Loop.roles] at hrole
  · cases pc with
    | notifying =>
        cases hlocked : s.locked (cfg.shardOf req.key) with
        | true => exact h.canMove_of_locked hlocked
        | false =>
            apply canMove_of_mem hmem
            simp only [Shared.runThread, Shared.runJob, Shared.notifyCompletion]
            rw [if_neg (by simp [hlocked])]
            split <;> rfl
    | _ => exact canMove_of_mem hmem rfl

omit h in
theorem maxOutstanding_pos (d : Dispatcher cfg) : 0 < cfg.maxOutstanding d := by
  rcases d with i | i
  · exact Nat.div_pos (le_max_right _ _) cfg.readers_pos
  · exact Nat.div_pos (le_max_right _ _) cfg.writers_pos

/-- A dispatch loop goes on; if it waits, there is a job that will wake it. -/
theorem Invariant.canMove_of_loop {pc : Loop}
    (hmem : .loop d pc ∈ s.threads) : CanMove s := by
  cases pc with
  | waiting req pending =>
      have hdesk := h.counted.desks d
      have hwaiting : 0 < s.num (.station .waiting d) :=
        num_pos hmem (by simp [roles, Loop.roles])
      cases hposted : s.posted d with
      | true =>
          apply canMove_of_mem hmem
          simp [Shared.runThread, Shared.processLoop, hposted]
      | false =>
          have hbaton := hdesk.baton hwaiting
          rw [hposted, if_neg Bool.false_ne_true] at hbaton
          have hmax := maxOutstanding_pos d
          have hout := hdesk.outstanding
          have hone := hdesk.loops_le
          apply h.canMove_of_job (d := d)
          omega
  | dispatch pending =>
      apply canMove_of_mem hmem
      cases pending <;> simp only [Shared.runThread, Shared.processLoop] <;> split <;> rfl
  | _ => exact canMove_of_mem hmem rfl

/-- Whoever has a request goes on. -/
theorem Invariant.canMove_of_request
    (hone : s.num (.request req) + s.queued req = 1) : CanMove s := by
  rcases Nat.eq_zero_or_pos (s.num (.request req)) with hzero | hpos
  -- It is in an incoming list.
  · have hqueued : 0 < s.queued req := by omega
    obtain ⟨d, -, hd⟩ := Finset.exists_ne_zero_of_sum_ne_zero hqueued.ne'
    have hreqs : (s.incomingReqs d).reqs ≠ [] := by
      intro hnil
      rw [hnil] at hd
      exact hd rfl
    obtain ⟨t, ht, hkind⟩ := h.loop_of_incoming hreqs
    rcases t with ⟨who, sub⟩ | ⟨d', pc⟩ | ⟨d', req', pc⟩
    · exact canMove_of_mem ht rfl
    · exact h.canMove_of_loop ht
    · rcases hkind with hkind | hkind <;> exact absurd hkind Bool.false_ne_true
  -- A thread has it.
  · obtain ⟨t, ht, hrole⟩ := exists_of_num_pos hpos
    rcases t with ⟨who, sub⟩ | ⟨d', pc⟩ | ⟨d', req', pc⟩
    · exact canMove_of_mem ht rfl
    · exact h.canMove_of_loop ht
    · cases pc <;> simp [roles, JobPc.roles] at hrole
      exact canMove_of_mem ht rfl

/-- **As long as a job is not done, some thread has a step to make.** -/
theorem Invariant.progress (hleft : ∃ req ∈ s.enqueued, req ∉ s.done) :
    CanMove s := by
  obtain ⟨req, hmem, hnot⟩ := hleft
  obtain ⟨tok, hordered⟩ := h.ordered
  have hshard := hordered.order (cfg.shardOf req.key)
  cases htok : tok (cfg.shardOf req.key) with
  | free =>
      have hreq : req ∈ ofShard cfg (cfg.shardOf req.key) s.enqueued := mem_ofShard.mpr ⟨hmem, rfl⟩
      rw [hshard, htok, hordered.spooled _ htok] at hreq
      simp only [Token.requests, append_nil, mem_ofShard, and_true] at hreq
      exact absurd hreq hnot
  | completing =>
      have hthis := hordered.notifying (cfg.shardOf req.key)
      rw [if_pos htok] at hthis
      obtain ⟨t, ht, hrole⟩ := exists_of_num_pos (Nat.lt_of_lt_of_eq Nat.one_pos hthis.symm)
      rcases t with ⟨who, sub⟩ | ⟨d', pc⟩ | ⟨d', req', pc⟩
      · exact canMove_of_mem ht rfl
      · cases pc <;> simp [roles, Loop.roles] at hrole
      · cases pc <;> simp [roles, JobPc.roles] at hrole
        exact h.canMove_of_job (d := d') (num_pos ht (by simp [roles, JobPc.roles]))
  | active out =>
      have hkey : cfg.shardOf out.key = cfg.shardOf req.key := by
        have hout : out ∈ ofShard cfg (cfg.shardOf req.key) s.enqueued := by
          rw [hshard, htok]
          simp [Token.requests]
        exact (mem_ofShard.mp hout).2
      have hone := hordered.requests out
      rw [hkey, if_pos htok] at hone
      exact h.canMove_of_request hone

end Progress

/-! ## The work that is left -/

def Submitter.weight : Submitter cfg → ℕ
  | caller _ => 0
  | job _ _ => 3

def Submission.weight : Submission cfg → ℕ
  | pushing _ => 16
  | scheduling _ => 5
  | starting _ => 4

def Loop.weight : Loop → ℕ
  | claim => 2
  | dispatch pending => 3 + 5 * pending.length
  | waiting _ pending => 7 + 5 * pending.length
  | adding _ pending => 6 + 5 * pending.length
  | ending => 1

def JobPc.weight : JobPc → ℕ
  | executing => 1
  | notifying => 20
  | completing => 2
  | ending => 1

def Thread.weight : Thread cfg → ℕ
  | submitting who sub => who.weight + sub.weight
  | loop _ pc => pc.weight
  | job _ _ pc => pc.weight

/-- The requests that wait in the incoming lists -/
def Shared.waitingReqs (s : Shared cfg) : ℕ := ∑ d, (s.incomingReqs d).reqs.length

/-- The work that is left with the given threads. -/
def workWith (s : Shared cfg) (ts : List (Thread cfg)) : ℕ :=
  20 * (s.enqueued.length - s.done.length) + 10 * s.waitingReqs + total weight ts

/-- A bound on the steps that the threads can make, apart from those of jobs that reschedule -/
def work (s : State cfg) : ℕ := workWith s.toShared s.threads

section Work

variable {c c' : Shared cfg} {new ts : List (Thread cfg)}

theorem waitingReqs_setIncoming (c : Shared cfg) (d : Dispatcher cfg) (q : Incoming) :
    (c.setIncoming d q).waitingReqs + (c.incomingReqs d).reqs.length
      = c.waitingReqs + q.reqs.length :=
  Threads.sum_update (fun q : Incoming => q.reqs.length) c.incomingReqs d q

theorem workWith_setIncoming (c : Shared cfg) (d : Dispatcher cfg) (q : Incoming)
    (ts : List (Thread cfg)) :
    workWith (c.setIncoming d q) ts + 10 * (c.incomingReqs d).reqs.length
      = workWith c ts + 10 * q.reqs.length := by
  have hsum := waitingReqs_setIncoming c d q
  simp only [workWith]
  change 20 * (c.enqueued.length - c.done.length) + _ + _ + _ = _
  omega

theorem workWith_lt (h : total weight new < total weight ts) :
    workWith c new < workWith c ts := by
  rw [workWith, workWith]
  omega

/-- A thread that does its share of the work leaves less of it. -/
theorem work_lt_of_share {i : ℕ} (ht : s.threads[i]? = some t)
    (hlt : workWith c' new < workWith s.toShared [t]) :
    work { c' with threads := replaceAt s.threads i new } < work s := by
  have htotal := Threads.total_replaceAt (f := weight) ht new
  rw [workWith, workWith, Threads.total_cons, Threads.total_nil] at hlt
  rw [work, work, workWith, workWith]
  dsimp only
  omega

theorem total_weight_afterwards (who : Submitter cfg) :
    total weight who.afterwards ≤ who.weight := by
  cases who <;> simp [Submitter.afterwards, Submitter.weight, weight, JobPc.weight]

attribute [local simp] Thread.weight Submission.weight Loop.weight JobPc.weight

theorem workWith_submitReq (c : Shared cfg) (who : Submitter cfg) (sub : Submission cfg) :
    workWith (c.submitReq who sub).1 (c.submitReq who sub).2
      < workWith c [.submitting who sub] := by
  have hafter := total_weight_afterwards who
  cases sub with
  | pushing req =>
      have hsum := workWith_setIncoming c (cfg.getDispatcher req.key req.type)
        { c.incomingReqs (cfg.getDispatcher req.key req.type) with
          reqs := req :: (c.incomingReqs (cfg.getDispatcher req.key req.type)).reqs }
      simp only [length_cons] at hsum
      simp only [Shared.submitReq]
      split
      · have hthis := hsum [.submitting who (.scheduling (cfg.getDispatcher req.key req.type))]
        simp [workWith] at hthis ⊢
        omega
      · have hthis := hsum who.afterwards
        change workWith (c.setIncoming _ _) who.afterwards < _
        simp [workWith] at hthis ⊢
        omega
  | scheduling d =>
      change workWith c _ < _
      apply workWith_lt
      simp [Shared.submitReq]
  | starting d =>
      change workWith c _ < _
      apply workWith_lt
      simp [Shared.submitReq]
      omega

theorem workWith_processLoop {pc : Loop} (hstep : c.LoopStep d pc c' new)
    (hclaim : pc = .claim → (c.incomingReqs d).reqs ≠ []) :
    workWith c' new < workWith c [.loop d pc] := by
  cases hstep with
  | claim =>
      have hsum := workWith_setIncoming c d ⟨[], true⟩
        [.loop d (.dispatch (c.incomingReqs d).reqs.reverse)]
      have hlen := length_pos_iff.mpr (hclaim rfl)
      simp [workWith] at hsum ⊢
      omega
  | unclaim =>
      have hsum := workWith_setIncoming c d ⟨[], false⟩ [.loop d .ending]
      simp [workWith] at hsum ⊢
      omega
  | retry | resume | finish =>
      change workWith c _ < _
      apply workWith_lt
      simp
  | wait | dispatch | add =>
      change workWith c _ < _
      apply workWith_lt
      simp
      omega

theorem workWith_runJob {code : JobExitCode} {pc : JobPc}
    (hstep : c.JobStep d req code pc c' new)
    (hdone : pc = .executing → code = .done ∧ c'.done.length ≤ c'.enqueued.length) :
    workWith c' new < workWith c [.job d req pc] := by
  cases hstep with
  | reschedule => exact absurd (hdone rfl).1 nofun
  | done =>
      have hle := (hdone rfl).2
      simp only [length_append, length_singleton] at hle
      have hwaiting : Shared.waitingReqs { c with done := c.done ++ [req] } = c.waitingReqs := rfl
      simp [workWith, hwaiting]
      omega
  | free | next | complete | finish =>
      change workWith c _ < _
      apply workWith_lt
      simp [Submitter.weight]

end Work

/-- **Every step of a thread makes the work smaller**, but for a job that reschedules, which changes
nothing. -/
theorem Invariant.work_lt (h : Invariant s) {i : ℕ} {code : JobExitCode}
    (hstep : Scheduler.step cfg s (.run i code) = some s') :
    work s' < work s ∨ code = .reschedule ∧ s' = s := by
  have h' := h.run hstep
  obtain ⟨t, shared, new, ht, hrun, rfl⟩ := step_run_eq_some.mp hstep
  cases t with
  | submitting who sub =>
      left
      apply work_lt_of_share ht
      have hwork := workWith_submitReq s.toShared who sub
      rw [Shared.runThread, some.injEq] at hrun
      rwa [hrun] at hwork
  | loop d pc =>
      left
      apply work_lt_of_share ht
      apply workWith_processLoop (Shared.loopStep_of_eq_some hrun)
      rintro rfl hempty
      have hclaiming : 0 < s.num (.station .claiming d) :=
        num_pos (mem_of_getElem? ht) (by simp [roles, Loop.roles])
      have hzero := (h.counted.desks d).filled hempty
      omega
  | job d req pc =>
      by_cases hagain : pc = .executing ∧ code = .reschedule
      · obtain ⟨rfl, rfl⟩ := hagain
        right
        simp only [Shared.runThread, Shared.runJob, some.injEq, Prod.mk.injEq] at hrun
        obtain ⟨rfl, rfl⟩ := hrun
        rw [Threads.replaceAt_self ht]
        exact ⟨rfl, rfl⟩
      · left
        apply work_lt_of_share ht
        apply workWith_runJob (Shared.jobStep_of_eq_some hrun)
        intro hpc
        refine ⟨?_, h'.length_done_le⟩
        cases code with
        | done => rfl
        | reschedule => exact absurd ⟨hpc, rfl⟩ hagain

/-! ## The guarantees -/

/-- What the scheduler guarantees in a state. -/
structure Guarantees (s : State cfg) : Prop where
  /-- A job reports that it is done once, -/
  once : s.done.Nodup
  /-- the jobs of a shard in the order in which they were enqueued. -/
  order : ∀ k, ofShard cfg k s.done <+: ofShard cfg k s.enqueued
  /-- The job that is executed is the next one of its shard, and no other one of the shard is. -/
  next : ∀ d req, .job d req .executing ∈ s.threads →
    ofShard cfg (cfg.shardOf req.key) s.done ++ [req]
      <+: ofShard cfg (cfg.shardOf req.key) s.enqueued
  alone : ∀ k, s.threads.countP (·.executesIn k) ≤ 1
  oneLoop : ∀ d, s.threads.countP (·.isLoopOf d) ≤ 1
  limit : ∀ d, s.threads.countP (·.isJobOf d) ≤ cfg.maxOutstanding d
  noneLeft : ∀ d, (s.incomingReqs d).reqs ≠ [] →
    ∃ t ∈ s.threads, t.isLoopOf d = true ∨ t.startsLoop d = true
  /-- As long as a job is not done, some thread has a step to make, -/
  progress : (∃ req ∈ s.enqueued, req ∉ s.done) → CanMove s
  /-- and the threads have only so many of them, if no job reschedules. -/
  finite : ∀ i code s', step cfg s (.run i code) = some s' →
    work s' < work s ∨ code = .reschedule ∧ s' = s

/-- **The request scheduler**: in every state of every run, the jobs of a shard are executed one at
a time, in order and until they are done, by one dispatch loop for each dispatcher and within its
limit, and no request is left behind. -/
theorem guarantees_of_exec {ls : List Label} (hrun : exec cfg ls = some s) : Guarantees s := by
  have h := invariant_of_exec hrun
  exact
    { once := h.nodup_done
      order := h.done_initial
      next := fun _ _ hmem => h.executing_next hmem
      alone := h.executes_one
      oneLoop := h.one_loop
      limit := h.jobs_le
      noneLeft := fun _ hreqs => h.loop_of_incoming hreqs
      progress := h.progress
      finite := fun _ _ _ hstep => h.work_lt hstep }

/-- One reader, one writer and one shard -/
def oneEach : Config := ⟨1, 1, 1, 1, 0, by decide, by decide⟩

/-- A write that is dispatched, and a read that is spooled behind it -/
def writeThenRead : List Label :=
  [.enqueue .write 0, .run 0 .done, .run 0 .done, .run 0 .done, .enqueue .read 0,
    .run 0 .done, .run 0 .done, .run 0 .done, .run 1 .reschedule, .run 1 .done]

theorem guarantees_of_exec_writeThenRead :
    ∃ s, exec oneEach writeThenRead = some s ∧ Guarantees s ∧
      s.done = [⟨0, 0, .write⟩] ∧ s.enqueued = [⟨0, 0, .write⟩, ⟨1, 0, .read⟩] := by
  obtain ⟨s, hrun, hfacts⟩ : ∃ s, exec oneEach writeThenRead = some s ∧
      s.done = [⟨0, 0, .write⟩] ∧ s.enqueued = [⟨0, 0, .write⟩, ⟨1, 0, .read⟩] := by decide +kernel
  exact ⟨s, hrun, guarantees_of_exec hrun, hfacts⟩

end CacheLib.Navy.Scheduler
