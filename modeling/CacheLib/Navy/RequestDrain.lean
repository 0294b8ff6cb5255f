/-
`NavyRequestScheduler::finish`.

It drains the readers and then the writers, one dispatcher after another, and a dispatcher is drained
at the moment when it has no task. A job that completes may hand the next request of its shard to
another dispatcher, and if that one has been drained already, `finish` returns without it: a read
that is spooled behind a write is enough.
-/
import CacheLib.Navy.RequestProgress

set_option autoImplicit false

namespace CacheLib.Navy.Scheduler

open List Option
open Threads (total replaceAt)

variable {cfg : Config} {s s' s₀ s₁ : State cfg} {d : Dispatcher cfg}

/-- The thread in `finish` does not wait for the dispatcher any more. -/
def Finisher.drained (d : Dispatcher cfg) : Finisher cfg → Bool
  | idle => false
  | draining rest => rest.all (decide <| d ≠ ·)
  | waiting d' rest notified => rest.all (decide <| d ≠ ·) && (decide (d ≠ d') || notified)
  | returned => true

/-- The step does not schedule a dispatch loop on a dispatcher that has been drained. -/
def schedulesUndrained (s : State cfg) : Label → Bool
  | .run i _ =>
      match s.threads[i]? with
      | some (.submitting _ (.scheduling d)) => !s.finisher.drained d
      | _ => true
  | _ => true

/-- A step of a thread of the scheduler, or of the thread in `finish` -/
def Label.isWork : Label → Bool
  | .run _ _ => true
  | .drain => true
  | .enqueue _ _ => false
  | .finish => false

/-- It is in `enqueueWithKey`. -/
def Thread.isCaller : Thread cfg → Bool
  | submitting (.caller _) _ => true
  | _ => false

/-! ## What a thread does to the number of tasks -/

/-- What a step of a thread does to the counters of tasks and to `finish`. -/
inductive Tasks (c c' : Shared cfg) (t : Thread cfg) : Prop where
  | same (hrun : c'.numRunning = c.numRunning) (hfinisher : c'.finisher = c.finisher)
  | more (d : Dispatcher cfg) (hrun : c'.numRunning = (c.incRunning d).numRunning)
      (hfinisher : c'.finisher = c.finisher)
      (hwho : (∃ who, t = .submitting who (.scheduling d)) ∨
        ∃ req pending, t = .loop d (.adding req pending))
  | less (d : Dispatcher cfg) (hrun : c'.numRunning = (c.decRunning d).numRunning)
      (hfinisher : c'.finisher = (c.decRunning d).finisher)

/-- What `finish` depends on, in a step of a thread -/
structure Frame (c c' : Shared cfg) (t : Thread cfg) (new : List (Thread cfg)) : Prop where
  enqueued : c'.enqueued = c.enqueued
  callers : t.isCaller = false → ∀ u ∈ new, u.isCaller = false
  tasks : Tasks c c' t

section Steps

variable {c c' : Shared cfg} {t : Thread cfg} {new : List (Thread cfg)} {code : JobExitCode}

theorem isCaller_afterwards (who : Submitter cfg) : ∀ u ∈ who.afterwards, u.isCaller = false := by
  cases who <;> simp [Submitter.afterwards, Thread.isCaller]

theorem frame_submitReq (c : Shared cfg) (who : Submitter cfg) (sub : Submission cfg) :
    Frame c (c.submitReq who sub).1 (.submitting who sub) (c.submitReq who sub).2 := by
  have hstays : ∀ sub', (Thread.submitting who sub).isCaller = false →
      ∀ u ∈ [Thread.submitting who sub'], u.isCaller = false := by
    intro sub' hcaller u hu
    rw [mem_singleton.mp hu]
    cases who with
    | caller shard => exact hcaller
    | job d req => rfl
  cases sub with
  | pushing req =>
      simp only [Shared.submitReq]
      split
      · exact ⟨rfl, hstays _, .same rfl rfl⟩
      · exact ⟨rfl, fun _ => isCaller_afterwards who, .same rfl rfl⟩
  | scheduling d => exact ⟨rfl, hstays _, .more d rfl rfl (Or.inl ⟨who, rfl⟩)⟩
  | starting d =>
      refine ⟨rfl, fun _ u hu => ?_, .same rfl rfl⟩
      rcases mem_append.mp hu with hu | hu
      · exact isCaller_afterwards who u hu
      · rw [mem_singleton.mp hu]
        rfl

theorem frame_processLoop {pc : Loop}
    (hstep : c.LoopStep d pc c' new) : Frame c c' (.loop d pc) new := by
  cases hstep with
  | add => exact ⟨rfl, by simp [Thread.isCaller], .more d rfl rfl (Or.inr ⟨_, _, rfl⟩)⟩
  | finish => exact ⟨rfl, by simp, .less d rfl rfl⟩
  | _ => exact ⟨rfl, by simp [Thread.isCaller], .same rfl rfl⟩

theorem frame_runJob {req : Request} {pc : JobPc}
    (hstep : c.JobStep d req code pc c' new) : Frame c c' (.job d req pc) new := by
  cases hstep with
  | finish => exact ⟨rfl, by simp, .less d rfl rfl⟩
  | _ => exact ⟨rfl, by simp [Thread.isCaller], .same rfl rfl⟩

theorem frame_runThread (hstep : c.runThread code t = some (c', new)) : Frame c c' t new := by
  cases t with
  | submitting who sub =>
      have hframe := frame_submitReq c who sub
      rw [Shared.runThread, some.injEq] at hstep
      rwa [hstep] at hframe
  | loop d pc => exact frame_processLoop (Shared.loopStep_of_eq_some hstep)
  | job d req pc => exact frame_runJob (Shared.jobStep_of_eq_some hstep)

end Steps

/-! ## A call of `finish` -/

/-- While `finish` runs and nobody enqueues: a dispatcher that has been drained has no task. -/
structure Draining (s₀ s : State cfg) : Prop where
  invariant : Invariant s
  enqueued : s.enqueued = s₀.enqueued
  callers : ∀ t ∈ s.threads, t.isCaller = false
  drained : ∀ d, s.finisher.drained d = true → s.numRunning d = 0

theorem mem_dispatchers (d : Dispatcher cfg) : d ∈ cfg.dispatchers := by
  rcases d with i | i <;> simp [Config.dispatchers]

theorem drained_draining {rest : List (Dispatcher cfg)} :
    (Finisher.draining rest).drained d = true ↔ d ∉ rest := by
  simp only [Finisher.drained, List.all_eq_true, decide_eq_true_eq]
  exact ⟨fun h hmem => h d hmem rfl, fun h e hmem hed => h (hed ▸ hmem)⟩

theorem drained_waiting {d d' : Dispatcher cfg} {rest : List (Dispatcher cfg)} {notified : Bool} :
    (Finisher.waiting d' rest notified).drained d = true
      ↔ d ∉ rest ∧ (d = d' → notified = true) := by
  rw [Finisher.drained, Bool.and_eq_true, Bool.or_eq_true, decide_eq_true_eq, ← imp_iff_not_or,
    ← drained_draining]
  rfl

theorem drained_decRunning {c : Shared cfg}
    (hdrained : ∀ e, c.finisher.drained e = true → c.numRunning e = 0) (e : Dispatcher cfg)
    (he : (c.decRunning d).finisher.drained e = true) : (c.decRunning d).numRunning e = 0 := by
  have hold : c.finisher.drained e = true → (c.decRunning d).numRunning e = 0 := by
    intro hbefore
    have hzero := hdrained e hbefore
    by_cases hed : e = d
    · subst hed
      simp [Shared.decRunning, hzero]
    · simpa [Shared.decRunning, Function.update_of_ne hed] using hzero
  cases hfinisher : c.finisher with
  | waiting d' rest notified =>
      simp only [Shared.decRunning, hfinisher, drained_waiting, Bool.or_eq_true,
        decide_eq_true_eq] at he
      obtain ⟨hrest, hnotified⟩ := he
      rw [hfinisher, drained_waiting] at hold
      by_cases hed : e = d'
      · rcases hnotified hed with hbefore | ⟨rfl, hlast⟩
        · exact hold ⟨hrest, fun _ => hbefore⟩
        · subst hed
          simpa [Shared.decRunning] using hlast
      · exact hold ⟨hrest, fun h => absurd h hed⟩
  | _ =>
      apply hold
      simpa [Shared.decRunning, hfinisher] using he

theorem Draining.run (h : Draining s₀ s) {i : ℕ} {code : JobExitCode}
    (hstep : step cfg s (.run i code) = some s')
    (hC : schedulesUndrained s (.run i code) = true) : Draining s₀ s' := by
  have hinvariant := h.invariant.run hstep
  obtain ⟨t, shared, new, ht, hrun, rfl⟩ := step_run_eq_some.mp hstep
  obtain ⟨henqueued, hcallers, htasks⟩ := frame_runThread hrun
  have hmem : t ∈ s.threads := mem_of_getElem? ht
  refine ⟨hinvariant, henqueued.trans h.enqueued, ?_, ?_⟩
  · intro u hu
    rcases Threads.mem_replaceAt hu with hu | hu
    · exact h.callers u hu
    · exact hcallers (h.callers t hmem) u hu
  · intro e he
    dsimp only at he ⊢
    cases htasks with
    | same hrun hfinisher =>
        rw [hfinisher] at he
        rw [hrun]
        exact h.drained e he
    | more d hrun hfinisher hwho =>
        rw [hfinisher] at he
        have hzero := h.drained e he
        have hed : e ≠ d := by
          rintro rfl
          rcases hwho with ⟨who, rfl⟩ | ⟨req, pending, rfl⟩
          -- A loop is scheduled: not on a dispatcher that has been drained.
          · simp only [schedulesUndrained, ht] at hC
            rw [he] at hC
            exact absurd hC Bool.false_ne_true
          -- A loop adds a job: it is itself a task.
          · have hadding : 0 < s.num (.station .adding e) :=
              num_pos hmem (by simp [Thread.roles, Loop.roles])
            have hrunning := (h.invariant.counted.desks e).running
            omega
        rw [hrun]
        simpa [Shared.incRunning, Function.update_of_ne hed] using hzero
    | less d hrun hfinisher =>
        rw [hfinisher] at he
        rw [hrun]
        exact drained_decRunning h.drained e he

theorem Draining.drain (h : Draining s₀ s) (hstep : step cfg s .drain = some s') :
    Draining s₀ s' := by
  have hinvariant := h.invariant.step hstep
  obtain ⟨shared, hdrain, rfl⟩ := map_eq_some_iff.mp hstep
  rw [Shared.drain] at hdrain
  split at hdrain
  · rename_i hfinisher
    rw [some.injEq] at hdrain
    subst hdrain
    refine ⟨hinvariant, h.enqueued, h.callers, fun e _ => h.drained e ?_⟩
    rw [hfinisher, drained_draining]
    exact not_mem_nil
  · rename_i d rest hfinisher
    split at hdrain <;> rename_i hzero <;> rw [some.injEq] at hdrain <;> subst hdrain <;>
      refine ⟨hinvariant, h.enqueued, h.callers, fun e he => ?_⟩
    · by_cases hed : e = d
      · exact hed ▸ hzero
      · apply h.drained e
        rw [hfinisher, drained_draining, mem_cons, not_or]
        exact ⟨hed, drained_draining.mp he⟩
    · apply h.drained e
      obtain ⟨hrest, hnotified⟩ := drained_waiting.mp he
      rw [hfinisher, drained_draining, mem_cons, not_or]
      exact ⟨fun hed => absurd (hnotified hed) Bool.false_ne_true, hrest⟩
  · rename_i d rest notified hfinisher
    rw [ite_none_right_eq_some, some.injEq] at hdrain
    obtain ⟨hnotified, rfl⟩ := hdrain
    refine ⟨hinvariant, h.enqueued, h.callers, fun e he => h.drained e ?_⟩
    rw [hfinisher, drained_waiting]
    exact ⟨drained_draining.mp he, fun _ => hnotified⟩
  · exact absurd hdrain (by simp)
  · exact absurd hdrain (by simp)

theorem Draining.step (h : Draining s₀ s) {l : Label} (hl : l.isWork = true)
    (hC : schedulesUndrained s l = true) (hstep : Scheduler.step cfg s l = some s') :
    Draining s₀ s' := by
  cases l with
  | run i code => exact h.run hstep hC
  | drain => exact h.drain hstep
  | enqueue type key => exact nomatch hl
  | finish => exact nomatch hl

/-- When every dispatcher is drained, nothing is left to do. -/
theorem Draining.done_of_returned (h : Draining s₀ s) (hreturned : s.finisher = .returned) :
    ∀ req ∈ s₀.enqueued, req ∈ s.done := by
  have hrunning : ∀ d, s.numRunning d = 0 := by
    intro d
    apply h.drained d
    rw [hreturned]
    rfl
  have hstations : ∀ st d, st ≠ .scheduling → s.num (.station st d) = 0 := by
    intro st d hst
    have hsum := (h.invariant.counted.desks d).running
    rw [hrunning d] at hsum
    cases st <;> first | exact absurd rfl hst | omega
  have hnone : s.threads = [] := by
    rw [eq_nil_iff_forall_not_mem]
    intro t hmem
    have hbusy : ∀ st d, .station st d ∈ t.roles → st = .scheduling := by
      intro st d hrole
      by_contra hst
      have hpos := num_pos hmem hrole
      rw [hstations st d hst] at hpos
      exact absurd hpos (Nat.lt_irrefl 0)
    have hcaller := h.callers t hmem
    rcases t with ⟨who, sub⟩ | ⟨d, pc⟩ | ⟨d, req, pc⟩
    · cases who with
      | caller shard => cases hcaller
      | job d req => cases hbusy .job d (by simp [Thread.roles, Submitter.roles])
    · cases pc <;> cases hbusy _ d mem_cons_self
    · cases pc <;> cases hbusy _ d mem_cons_self
  intro req hmem
  by_contra hnot
  obtain ⟨i, s', hstep⟩ := h.invariant.progress ⟨req, h.enqueued ▸ hmem, hnot⟩
  simp [Scheduler.step, hnone] at hstep

/-- **When `finish` returns**, every job that was enqueued before is done, in every run in which no
dispatch loop is scheduled on a dispatcher that has been drained. Nobody is in `enqueueWithKey` while
`finish` runs. -/
theorem done_of_finish {before during : List Label} (hbefore : exec cfg before = some s₀)
    (hcallers : ∀ t ∈ s₀.threads, t.isCaller = false) (hfinish : step cfg s₀ .finish = some s₁)
    (hduring : Transition.exec (step cfg) s₁ during = some s)
    (hwork : ∀ l ∈ during, l.isWork = true)
    (hundrained : Transition.Along (step cfg) (fun s l => schedulesUndrained s l = true) s₁ during)
    (hreturned : s.finisher = .returned) : ∀ req ∈ s₀.enqueued, req ∈ s.done := by
  have hinvariant := invariant_of_exec hbefore
  have hstart : Draining s₀ s₁ := by
    have hinvariant₁ := hinvariant.step hfinish
    rw [step, State.finish] at hfinish
    split at hfinish
    case h_1 | h_2 =>
      rw [some.injEq] at hfinish
      subst hfinish
      exact ⟨hinvariant₁, rfl, hcallers,
        fun d hd => absurd (mem_dispatchers d) (drained_draining.mp hd)⟩
    all_goals cases hfinish
  have hC := hundrained.and (Transition.Along.of_forall (C := fun _ l => l.isWork = true)
    fun l hl _ => hwork l hl)
  have hend := Transition.exec_invariant_along
    (fun _ _ _ h hC hstep => Draining.step h hC.2 hC.1 hstep) hduring hC hstart
  exact hend.done_of_returned hreturned

/-- A write that is dispatched -/
def oneWrite : List Label :=
  [.enqueue .write 0, .run 0 .done, .run 0 .done, .run 0 .done]

/-- `finish` finds no task of the reader and waits for the writer. The loop dispatches the write and
ends, and the write is executed. -/
def executeWrite : List Label :=
  [.drain, .drain, .run 0 .done, .run 0 .done, .run 0 .done, .run 0 .done, .run 0 .done, .run 0 .done]

/-- The scheduler is notified and the task ends, which wakes the thread in `finish`. -/
def completeWrite : List Label :=
  [.run 0 .done, .run 0 .done, .run 0 .done, .drain, .drain]

theorem done_of_finish_oneWrite :
    ∃ s₀ s₁ s, exec oneEach oneWrite = some s₀ ∧ step oneEach s₀ .finish = some s₁ ∧
      Transition.exec (step oneEach) s₁ (executeWrite ++ completeWrite) = some s ∧
      s.finisher = .returned ∧ s₀.enqueued = [⟨0, 0, .write⟩] ∧
      ∀ req ∈ s₀.enqueued, req ∈ s.done := by
  obtain ⟨s₀, hs₀, hcallers, henqueued, s₁, hs₁, hundrained, s, hs, hreturned⟩ :
      ∃ s₀, exec oneEach oneWrite = some s₀ ∧ (∀ t ∈ s₀.threads, t.isCaller = false) ∧
        s₀.enqueued = [⟨0, 0, .write⟩] ∧ ∃ s₁, step oneEach s₀ .finish = some s₁ ∧
          Transition.Along (step oneEach) (fun s l => schedulesUndrained s l = true) s₁
            (executeWrite ++ completeWrite) ∧
          ∃ s, Transition.exec (step oneEach) s₁ (executeWrite ++ completeWrite) = some s ∧
            s.finisher = .returned := by
    decide +kernel
  exact ⟨s₀, s₁, s, hs₀, hs₁, hs, hreturned, henqueued,
    done_of_finish hs₀ hcallers hs₁ hs (by decide) hundrained hreturned⟩

/-- The same with a read that is spooled behind the write: the write hands it to the reader, which
has been drained, and `finish` returns. -/
def handOver : List Label :=
  [.run 0 .done, .run 0 .done, .run 0 .done, .run 0 .done, .run 0 .done, .run 0 .done, .drain, .drain]

theorem read_behind_write_not_done :
    ∃ s₀ s₁ s, exec oneEach (oneWrite ++ [.enqueue .read 0]) = some s₀ ∧
      (∀ t ∈ s₀.threads, t.isCaller = false) ∧ step oneEach s₀ .finish = some s₁ ∧
      Transition.exec (step oneEach) s₁ (executeWrite ++ handOver) = some s ∧
      (∀ l ∈ executeWrite ++ handOver, l.isWork = true) ∧ s.finisher = .returned ∧
      ⟨1, 0, .read⟩ ∈ s₀.enqueued ∧ ⟨1, 0, .read⟩ ∉ s.done := by
  obtain ⟨s₀, hs₀, hcallers, hmem, s₁, hs₁, s, hs, hreturned, hdone⟩ :
      ∃ s₀, exec oneEach (oneWrite ++ [.enqueue .read 0]) = some s₀ ∧
        (∀ t ∈ s₀.threads, t.isCaller = false) ∧ ⟨1, 0, .read⟩ ∈ s₀.enqueued ∧
        ∃ s₁, step oneEach s₀ .finish = some s₁ ∧
          ∃ s, Transition.exec (step oneEach) s₁ (executeWrite ++ handOver) = some s ∧
            s.finisher = .returned ∧ ⟨1, 0, .read⟩ ∉ s.done := by
    decide +kernel
  exact ⟨s₀, s₁, s, hs₀, hcallers, hs₁, hs, by decide, hreturned, hmem, hdone⟩

end CacheLib.Navy.Scheduler
