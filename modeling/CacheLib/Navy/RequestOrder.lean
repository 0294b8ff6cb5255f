/-
The order of the requests of a shard, and what holds in every state of the scheduler.

Of a shard's requests one is out at a time. Its token says where that one stands, and `Ordered` says
that the requests enqueued to the shard are those that are done, the one that is out, and those that
are spooled, in this order. The one that is out is in exactly one place: with a thread, or in one
incoming list.
-/
import CacheLib.Navy.RequestCounts

set_option autoImplicit false

namespace CacheLib.Navy.Scheduler

open List Option Function

open Threads (total replaceAt)

variable {cfg : Config} {req : Request} {d : Dispatcher cfg} {code : JobExitCode}

/-- Where the one job of a shard stands: none is out, `req` is on its way or running, or one is
done and the scheduler has not been notified. -/
inductive Token where
  | free
  | active (req : Request)
  | completing
  deriving DecidableEq

def Token.requests : Token → List Request
  | active req => [req]
  | free | completing => []

/-- The requests of a shard, in a list of requests -/
def ofShard (cfg : Config) (k : ℕ) (reqs : List Request) : List Request :=
  reqs.filter fun req => cfg.shardOf req.key = k

section Lists

variable {k : ℕ} {reqs : List Request}

theorem mem_ofShard : req ∈ ofShard cfg k reqs ↔ req ∈ reqs ∧ cfg.shardOf req.key = k := by
  simp [ofShard, mem_filter]

theorem ofShard_append (reqs reqs' : List Request) :
    ofShard cfg k (reqs ++ reqs') = ofShard cfg k reqs ++ ofShard cfg k reqs' :=
  filter_append _ _

theorem ofShard_concat (req : Request) (reqs : List Request) :
    ofShard cfg (cfg.shardOf req.key) (reqs ++ [req])
      = ofShard cfg (cfg.shardOf req.key) reqs ++ [req] := by
  rw [ofShard_append]
  simp [ofShard]

theorem ofShard_concat_of_ne (hk : k ≠ cfg.shardOf req.key) (reqs : List Request) :
    ofShard cfg k (reqs ++ [req]) = ofShard cfg k reqs := by
  rw [ofShard_append]
  simp [ofShard, hk.symm]

end Lists

/-- How often the request is in an incoming list -/
def Shared.queued (s : Shared cfg) (req : Request) : ℕ := ∑ d, (s.incomingReqs d).reqs.count req

theorem queued_setIncoming (s : Shared cfg) (d : Dispatcher cfg) (q : Incoming) (req : Request) :
    (s.setIncoming d q).queued req + (s.incomingReqs d).reqs.count req
      = s.queued req + q.reqs.count req :=
  Threads.sum_update (fun q : Incoming => q.reqs.count req) s.incomingReqs d q

structure Ordered (s : Shared cfg) (num : Role cfg → ℕ) (tok : ℕ → Token) : Prop where
  requests : ∀ req, num (.request req) + s.queued req
    = if tok (cfg.shardOf req.key) = .active req then 1 else 0
  notifying : ∀ k, num (.notifying k) = if tok k = .completing then 1 else 0
  order : ∀ k, ofShard cfg k s.enqueued
    = ofShard cfg k s.done ++ (tok k).requests ++ s.pendingReqs k
  shouldSpool : ∀ k, s.shouldSpool k = decide (tok k ≠ .free)
  spooled : ∀ k, tok k = .free → s.pendingReqs k = []
  ids : ∀ (i : ℕ) (req : Request), s.enqueued[i]? = some req → req.id = i

section Ordered

variable {s s' : Shared cfg} {num num' : Role cfg → ℕ} {t : Thread cfg} {new : List (Thread cfg)}
  {tok : ℕ → Token} (h : Ordered s num tok)

include h

/-- A step that takes requests from one place to another -/
theorem Ordered.of_same
    (hrequests : ∀ req, num' (.request req) + s'.queued req = num (.request req) + s.queued req)
    (hnotifying : ∀ k, num' (.notifying k) = num (.notifying k))
    (hpending : s'.pendingReqs = s.pendingReqs) (hspool : s'.shouldSpool = s.shouldSpool)
    (henqueued : s'.enqueued = s.enqueued) (hdone : s'.done = s.done) : Ordered s' num' tok where
  requests req := (hrequests req).trans (h.requests req)
  notifying k := (hnotifying k).trans (h.notifying k)
  order := by
    rw [hpending, henqueued, hdone]
    exact h.order
  shouldSpool := by
    rw [hspool]
    exact h.shouldSpool
  spooled := by
    rw [hpending]
    exact h.spooled
  ids := by
    rw [henqueued]
    exact h.ids

/-- A step that changes one shard -/
theorem Ordered.update (k₀ : ℕ) (x : Token)
    (hrequests₀ : ∀ req, cfg.shardOf req.key = k₀ →
      num' (.request req) + s'.queued req = if x = .active req then 1 else 0)
    (hrequests : ∀ req, cfg.shardOf req.key ≠ k₀ → num' (.request req) = num (.request req))
    (hincoming : s'.incomingReqs = s.incomingReqs)
    (hnotifying₀ : num' (.notifying k₀) = if x = .completing then 1 else 0)
    (hnotifying : ∀ k, k ≠ k₀ → num' (.notifying k) = num (.notifying k))
    (horder₀ : ofShard cfg k₀ s'.enqueued
      = ofShard cfg k₀ s'.done ++ x.requests ++ s'.pendingReqs k₀)
    (horder : ∀ k, k ≠ k₀ → ofShard cfg k s'.enqueued = ofShard cfg k s.enqueued ∧
      ofShard cfg k s'.done = ofShard cfg k s.done ∧ s'.pendingReqs k = s.pendingReqs k)
    (hspool₀ : s'.shouldSpool k₀ = decide (x ≠ .free))
    (hspool : ∀ k, k ≠ k₀ → s'.shouldSpool k = s.shouldSpool k)
    (hspooled₀ : x = .free → s'.pendingReqs k₀ = [])
    (hids : ∀ (i : ℕ) (req : Request), s'.enqueued[i]? = some req → req.id = i) :
    Ordered s' num' (Function.update tok k₀ x) := by
  constructor
  · intro req
    by_cases hk : cfg.shardOf req.key = k₀
    · rw [hk, update_self]
      exact hrequests₀ req hk
    · rw [update_of_ne hk, hrequests req hk, Shared.queued, hincoming]
      exact h.requests req
  · intro k
    by_cases hk : k = k₀
    · rw [hk, update_self]
      exact hnotifying₀
    · rw [update_of_ne hk, hnotifying k hk]
      exact h.notifying k
  · intro k
    by_cases hk : k = k₀
    · rw [hk, update_self]
      exact horder₀
    · obtain ⟨henqueued, hdone, hpending⟩ := horder k hk
      rw [update_of_ne hk, henqueued, hdone, hpending]
      exact h.order k
  · intro k
    by_cases hk : k = k₀
    · rw [hk, update_self]
      exact hspool₀
    · rw [update_of_ne hk, hspool k hk]
      exact h.shouldSpool k
  · intro k hfree
    by_cases hk : k = k₀
    · rw [hk, update_self] at hfree
      exact hk ▸ hspooled₀ hfree
    · rw [update_of_ne hk] at hfree
      rw [(horder k hk).2.2]
      exact h.spooled k hfree
  · exact hids

/-- Whoever has a request of a shard has the one that is out. -/
theorem Ordered.active_of_pos
    (hpos : 0 < num (.request req)) : tok (cfg.shardOf req.key) = .active req := by
  by_contra hne
  have heq := h.requests req
  rw [if_neg hne] at heq
  omega

theorem Ordered.completing_of_pos {k : ℕ} (hpos : 0 < num (.notifying k)) :
    tok k = .completing := by
  by_contra hne
  have heq := h.notifying k
  rw [if_neg hne] at heq
  omega

/-- The spooled requests of a shard are requests of the shard. -/
theorem Ordered.shardOf_spooled {k : ℕ}
    (hmem : req ∈ s.pendingReqs k) : cfg.shardOf req.key = k := by
  have hshard : req ∈ ofShard cfg k s.enqueued := by
    rw [h.order k]
    exact mem_append_right _ hmem
  exact (mem_ofShard.mp hshard).2

/-! ## The steps of the threads -/

attribute [local simp] Thread.roles Loop.roles JobPc.roles Submission.roles

theorem Ordered.submitReq {who : Submitter cfg} {sub : Submission cfg}
    (hm : Moves num num' (.submitting who sub) (s.submitReq who sub).2) :
    Ordered (s.submitReq who sub).1 num' tok := by
  cases sub with
  | pushing req =>
      simp only [Shared.submitReq] at hm ⊢
      -- The request goes from the submitter to the incoming list.
      have hsum := queued_setIncoming s (cfg.getDispatcher req.key req.type)
        { s.incomingReqs (cfg.getDispatcher req.key req.type) with
          reqs := req :: (s.incomingReqs (cfg.getDispatcher req.key req.type)).reqs }
      split at hm <;> rename_i hnull
      · rw [if_pos hnull]
        refine h.of_same ?_ (fun k => hm.num_eq (by simp)) rfl rfl rfl rfl
        intro r
        have heq := hm.eq (.request r)
        have hr := hsum r
        simp [count_cons] at heq hr
        change num' (.request r) + (s.setIncoming _ _).queued r = _
        omega
      · rw [if_neg hnull]
        refine h.of_same ?_ (fun k => hm.num_eq (by simp [count_afterwards])) rfl rfl rfl rfl
        intro r
        have heq := hm.eq (.request r)
        have hr := hsum r
        simp [count_cons, count_afterwards] at heq hr
        change num' (.request r) + (s.setIncoming _ _).queued r = _
        omega
  | scheduling d | starting d =>
      refine h.of_same ?_ ?_ rfl rfl rfl rfl
      · intro req
        rw [hm.num_eq (by simp [Shared.submitReq, count_afterwards])]
        rfl
      · intro k
        exact hm.num_eq (by simp [Shared.submitReq, count_afterwards])

theorem Ordered.processLoop {pc : Loop}
    (hstep : s.LoopStep d pc s' new) (hm : Moves num num' (.loop d pc) new) :
    Ordered s' num' tok := by
  cases hstep with
  | claim =>
      -- All requests of the list go to the loop.
      refine h.of_same ?_ (fun k => hm.num_eq (by simp)) rfl rfl rfl rfl
      intro req
      have heq := hm.eq (.request req)
      have hsum := queued_setIncoming s d ⟨[], true⟩ req
      simp at heq hsum
      omega
  | unclaim hq =>
      refine h.of_same ?_ (fun k => hm.num_eq (by simp)) rfl rfl rfl rfl
      intro req
      have hsum := queued_setIncoming s d ⟨[], false⟩ req
      simp only [Incoming.isSentinel, Bool.and_eq_true, List.isEmpty_iff] at hq
      simp [hq.1] at hsum
      rw [hm.num_eq (by simp)]
      omega
  | retry | wait | dispatch | resume | add | finish =>
      refine h.of_same (fun req => ?_) (fun k => hm.num_eq (by simp)) rfl rfl rfl rfl
      change num' (.request req) + s.queued req = _
      rw [hm.num_eq (by simp [count_cons])]

/-- A job reports that it is done: it was the one of its shard that was out. -/
theorem Ordered.jobDone
    (hm : Moves num num' (.job d req .executing) [.job d req .notifying]) :
    Ordered { s with done := s.done ++ [req] } num'
      (Function.update tok (cfg.shardOf req.key) .completing) := by
  have htok := h.active_of_pos (Nat.lt_of_lt_of_le (by simp) (hm.le (.request req)))
  apply h.update
  · intro r hr
    have heq := hm.eq (.request r)
    have hone := h.requests r
    rw [hr, htok] at hone
    simp [count_cons] at heq hone
    change num' (.request r) + s.queued r = 0
    omega
  · intro r hr
    apply hm.num_eq
    have hne : req ≠ r := fun h => hr (h ▸ rfl)
    simp [hne]
  · rfl
  · have heq := hm.eq (.notifying (cfg.shardOf req.key))
    have hone := h.notifying (cfg.shardOf req.key)
    simp [htok] at heq hone ⊢
    omega
  · intro k hk
    apply hm.num_eq
    simp [hk.symm]
  · rw [ofShard_concat, h.order, htok]
    simp [Token.requests]
  · intro k hk
    exact ⟨rfl, ofShard_concat_of_ne hk _, rfl⟩
  · rw [h.shouldSpool, htok]
    simp
  · exact fun _ _ => rfl
  · exact nofun
  · exact h.ids

/-- `notifyCompletion`: the next spooled request is the one that is out, or none is. -/
theorem Ordered.notifyCompletion
    (hstep : s.JobStep d req code .notifying s' new)
    (hm : Moves num num' (.job d req .notifying) new) : ∃ tok', Ordered s' num' tok' := by
  have hpos : 0 < num (.notifying (cfg.shardOf req.key)) :=
    Nat.lt_of_lt_of_le (by simp) (hm.le (.notifying (cfg.shardOf req.key)))
  have htok := h.completing_of_pos hpos
  have hnone : ∀ r, cfg.shardOf r.key = cfg.shardOf req.key →
      num (.request r) + s.queued r = 0 := by
    intro r hr
    rw [h.requests r, hr, htok, if_neg (by simp)]
  have hthis := h.notifying (cfg.shardOf req.key)
  rw [htok, if_pos rfl] at hthis
  rcases hstep with _ | _ | hpending | @⟨_, next, rest, _, hpending⟩
  · refine ⟨Function.update tok (cfg.shardOf req.key) .free, ?_⟩
    apply h.update
    · intro r hr
      rw [hm.num_eq (by simp)]
      exact hnone r hr
    · intro r _
      exact hm.num_eq (by simp)
    · rfl
    · have heq := hm.eq (.notifying (cfg.shardOf req.key))
      simp at heq ⊢
      omega
    · intro k hk
      apply hm.num_eq
      simp [hk.symm]
    · rw [h.order, htok]
      rfl
    · exact fun _ _ => ⟨rfl, rfl, rfl⟩
    · simp
    · exact fun k hk => update_of_ne hk _ _
    · exact fun _ => hpending
    · exact h.ids
  · have hnext : cfg.shardOf next.key = cfg.shardOf req.key :=
      h.shardOf_spooled (hpending ▸ mem_cons_self)
    refine ⟨Function.update tok (cfg.shardOf req.key) (.active next), ?_⟩
    apply h.update
    · intro r hr
      have heq := hm.eq (.request r)
      have hzero := hnone r hr
      simp [Submitter.roles, count_cons] at heq hzero ⊢
      change num' (.request r) + s.queued r = _
      omega
    · intro r hr
      apply hm.num_eq
      have hne : next ≠ r := fun h => hr (h ▸ hnext)
      simp [Submitter.roles, hne]
    · rfl
    · have heq := hm.eq (.notifying (cfg.shardOf req.key))
      simp [Submitter.roles] at heq ⊢
      omega
    · intro k hk
      apply hm.num_eq
      simp [Submitter.roles, hk.symm]
    · have horder := h.order (cfg.shardOf req.key)
      rw [htok, hpending] at horder
      simpa [Shared.setLocked, Token.requests] using horder
    · exact fun k hk => ⟨rfl, rfl, update_of_ne hk _ _⟩
    · rw [Shared.setLocked, h.shouldSpool, htok]
      simp
    · exact fun _ _ => rfl
    · simp
    · exact h.ids

theorem Ordered.runThread
    (hstep : s.runThread code t = some (s', new)) (hm : Moves num num' t new) :
    ∃ tok', Ordered s' num' tok' := by
  cases t with
  | submitting who sub =>
      obtain rfl : (s.submitReq who sub).1 = s' := congrArg Prod.fst (some.inj hstep)
      obtain rfl : (s.submitReq who sub).2 = new := congrArg Prod.snd (some.inj hstep)
      exact ⟨tok, h.submitReq hm⟩
  | loop d pc => exact ⟨tok, h.processLoop (Shared.loopStep_of_eq_some hstep) hm⟩
  | job d req pc =>
      rw [Shared.runThread] at hstep
      cases Shared.jobStep_of_eq_some hstep with
      | done => exact ⟨_, h.jobDone hm⟩
      | free | next => exact h.notifyCompletion (Shared.jobStep_of_eq_some hstep) hm
      | reschedule | complete | finish =>
          refine ⟨tok, h.of_same (fun r => ?_) (fun k => hm.num_eq (by simp)) rfl rfl rfl rfl⟩
          change num' (.request r) + s.queued r = _
          rw [hm.num_eq (by simp)]

end Ordered

/-! ## Runs -/

/-- What holds in every state of the scheduler -/
structure Invariant (s : State cfg) : Prop where
  counted : Counted s.toShared s.num
  ordered : ∃ tok, Ordered s.toShared s.num tok

theorem invariant_init : Invariant ({} : State cfg) := by
  constructor
  · refine ⟨fun _ => rfl, fun d => ?_⟩
    exact ⟨rfl, fun _ => rfl, fun _ => rfl, rfl, Nat.zero_le _,
      fun h => absurd h (Nat.lt_irrefl 0), rfl⟩
  · refine ⟨fun _ => .free, ?_, fun _ => rfl, fun _ => rfl, fun _ => rfl, fun _ _ => rfl, ?_⟩
    · intro req
      simp [State.num, Shared.queued]
    · intro i req h
      simp at h

variable {s s' : State cfg}

theorem num_concat (s : State cfg) (t : Thread cfg) (ρ : Role cfg) :
    total (fun t => t.roles.count ρ) (s.threads ++ [t]) = s.num ρ + t.roles.count ρ := by
  rw [Threads.total_append, Threads.total_cons, Threads.total_nil, Nat.add_zero]
  rfl

theorem ids_concat {reqs : List Request}
    (hids : ∀ (i : ℕ) (req : Request), reqs[i]? = some req → req.id = i) (key : UInt64)
    (type : JobType) (i : ℕ) (req : Request)
    (h : (reqs ++ [⟨reqs.length, key, type⟩])[i]? = some req) : req.id = i := by
  rcases Nat.lt_trichotomy i reqs.length with hi | hi | hi
  · rw [getElem?_append_left hi] at h
    exact hids i req h
  · rw [hi, getElem?_concat_length, some.injEq] at h
    rw [← h, hi]
  · rw [getElem?_append_right (by omega), getElem?_singleton, if_neg (by omega)] at h
    exact absurd h (by simp)

section Enqueue

variable {key : UInt64} {type : JobType}

/-- A job of the shard is out: the request is spooled behind the others. -/
theorem Invariant.spool (h : Invariant s) (hout : s.shouldSpool (cfg.shardOf key) = true) :
    Invariant { s with
      enqueued := s.enqueued ++ [⟨s.enqueued.length, key, type⟩]
      pendingReqs := Function.update s.pendingReqs (cfg.shardOf key)
        (s.pendingReqs (cfg.shardOf key) ++ [⟨s.enqueued.length, key, type⟩]) } := by
  obtain ⟨hcounted, tok, hordered⟩ := h
  have hspool := hordered.shouldSpool (cfg.shardOf key)
  refine ⟨⟨hcounted.mutex, hcounted.desks⟩, tok, ?_⟩
  rw [← update_eq_self (cfg.shardOf key) tok]
  apply hordered.update
  · intro req hreq
    rw [← hreq]
    exact hordered.requests req
  · exact fun _ _ => rfl
  · rfl
  · exact hordered.notifying _
  · exact fun _ _ => rfl
  · have hconcat := @ofShard_concat cfg ⟨s.enqueued.length, key, type⟩ s.enqueued
    dsimp only at hconcat ⊢
    rw [hconcat, hordered.order, update_self, ← append_assoc]
  · intro k hk
    exact ⟨ofShard_concat_of_ne hk _, rfl, update_of_ne hk _ _⟩
  · exact hspool
  · exact fun _ _ => rfl
  · intro htok
    rw [hout, htok] at hspool
    exact absurd hspool (by simp)
  · exact ids_concat hordered.ids key type

theorem Invariant.submit (h : Invariant s) (hfree : ¬ s.locked (cfg.shardOf key) = true)
    (hout : ¬ s.shouldSpool (cfg.shardOf key) = true) :
    Invariant { s with
      enqueued := s.enqueued ++ [⟨s.enqueued.length, key, type⟩]
      shouldSpool := Function.update s.shouldSpool (cfg.shardOf key) true
      locked := Function.update s.locked (cfg.shardOf key) true
      threads := s.threads ++ [.submitting (.caller (cfg.shardOf key))
        (.pushing ⟨s.enqueued.length, key, type⟩)] } := by
  obtain ⟨hcounted, tok, hordered⟩ := h
  have hspool := hordered.shouldSpool (cfg.shardOf key)
  have htok : tok (cfg.shardOf key) = .free := by
    simpa [hspool] using hout
  constructor
  · constructor
    · intro k
      have hmutex := hcounted.mutex k
      rw [State.num, num_concat]
      by_cases hk : k = cfg.shardOf key
      · subst hk
        rw [if_neg hfree] at hmutex
        simp [hmutex, Thread.roles, Submitter.roles, Submission.roles]
      · have hne : ¬ cfg.shardOf key = k := fun h => hk h.symm
        simp [update_of_ne hk, hmutex, Thread.roles, Submitter.roles, Submission.roles, hne]
    · intro d
      have hnum : ∀ st, total (fun t => t.roles.count (.station st d))
          (s.threads ++ [.submitting (.caller (cfg.shardOf key))
            (.pushing ⟨s.enqueued.length, key, type⟩)]) = s.num (.station st d) := by
        intro st
        rw [num_concat]
        simp [Thread.roles, Submitter.roles, Submission.roles]
      simp only [State.num, hnum]
      exact hcounted.desks d
  · refine ⟨Function.update tok (cfg.shardOf key) (.active ⟨s.enqueued.length, key, type⟩), ?_⟩
    apply hordered.update
    · intro req hreq
      have hzero := hordered.requests req
      rw [hreq, htok, if_neg (by simp)] at hzero
      rw [State.num, num_concat]
      simp [Thread.roles, Submitter.roles, Submission.roles, count_cons]
      change s.num (.request req) + _ + s.queued req = _
      omega
    · intro req hreq
      rw [State.num, num_concat]
      have hne : (⟨s.enqueued.length, key, type⟩ : Request) ≠ req := fun h => hreq (h ▸ rfl)
      simp [Thread.roles, Submitter.roles, Submission.roles, hne]
    · rfl
    · have hthis := hordered.notifying (cfg.shardOf key)
      rw [htok] at hthis
      rw [State.num, num_concat]
      simpa [Thread.roles, Submitter.roles, Submission.roles] using hthis
    · intro k _
      rw [State.num, num_concat]
      simp [Thread.roles, Submitter.roles, Submission.roles]
    · have hconcat := @ofShard_concat cfg ⟨s.enqueued.length, key, type⟩ s.enqueued
      dsimp only at hconcat ⊢
      rw [hconcat, hordered.order, htok, hordered.spooled _ htok]
      simp [Token.requests]
    · intro k hk
      exact ⟨ofShard_concat_of_ne hk _, rfl, rfl⟩
    · simp
    · exact fun k hk => update_of_ne hk _ _
    · simp
    · exact ids_concat hordered.ids key type

theorem Invariant.enqueueWithKey (h : Invariant s)
    (hstep : s.enqueueWithKey type key = some s') : Invariant s' := by
  rw [State.enqueueWithKey, ite_none_left_eq_some] at hstep
  obtain ⟨hfree, hstep⟩ := hstep
  split at hstep <;> rename_i hout <;> rw [some.injEq] at hstep <;> subst hstep
  · exact h.spool hout
  · exact h.submit hfree hout

end Enqueue

/-- What a step of a thread does to the state -/
theorem step_run_eq_some {i : ℕ} :
    step cfg s (.run i code) = some s' ↔ ∃ t shared new, s.threads[i]? = some t ∧
      s.toShared.runThread code t = some (shared, new) ∧
      s' = { shared with threads := replaceAt s.threads i new } := by
  constructor
  · intro hstep
    rw [step] at hstep
    split at hstep
    · exact nomatch hstep
    · rename_i t ht
      obtain ⟨⟨shared, new⟩, hrun, rfl⟩ := map_eq_some_iff.mp hstep
      exact ⟨t, shared, new, ht, hrun, rfl⟩
  · rintro ⟨t, shared, new, ht, hrun, rfl⟩
    simp only [step, ht, hrun, map_some]

theorem Invariant.run (h : Invariant s) {i : ℕ}
    (hstep : step cfg s (.run i code) = some s') : Invariant s' := by
  obtain ⟨t, shared, new, ht, hrun, rfl⟩ := step_run_eq_some.mp hstep
  obtain ⟨hcounted, tok, hordered⟩ := h
  have hm := moves_replaceAt ht new
  exact ⟨hcounted.runThread hrun hm, hordered.runThread hrun hm⟩

theorem Invariant.of_finisher (h : Invariant s) (f : Finisher cfg) :
    Invariant { s with finisher := f } := by
  obtain ⟨hcounted, tok, hordered⟩ := h
  exact ⟨⟨hcounted.mutex, hcounted.desks⟩, tok, ⟨hordered.requests, hordered.notifying,
    hordered.order, hordered.shouldSpool, hordered.spooled, hordered.ids⟩⟩

theorem drain_eq_some {shared : Shared cfg} (h : s.toShared.drain = some shared) :
    ∃ f, shared = { s.toShared with finisher := f } := by
  rw [Shared.drain] at h
  split at h
  · exact ⟨_, (some.inj h).symm⟩
  · split at h <;> exact ⟨_, (some.inj h).symm⟩
  · rw [ite_none_right_eq_some] at h
    exact ⟨_, (some.inj h.2).symm⟩
  · exact nomatch h
  · exact nomatch h

theorem Invariant.step (h : Invariant s) {l : Label} (hstep : step cfg s l = some s') :
    Invariant s' := by
  cases l with
  | enqueue type key => exact h.enqueueWithKey hstep
  | run i code => exact h.run hstep
  | finish =>
      rw [Scheduler.step, State.finish] at hstep
      split at hstep
      · exact some.inj hstep ▸ h.of_finisher _
      · exact some.inj hstep ▸ h.of_finisher _
      · exact nomatch hstep
      · exact nomatch hstep
  | drain =>
      obtain ⟨shared, hdrain, rfl⟩ := map_eq_some_iff.mp hstep
      obtain ⟨f, rfl⟩ := drain_eq_some hdrain
      exact h.of_finisher f

theorem invariant_of_exec {ls : List Label} (hrun : exec cfg ls = some s) : Invariant s :=
  Transition.exec_invariant (fun _ _ _ h hstep => h.step hstep) hrun invariant_init

end CacheLib.Navy.Scheduler
