/-
Linearizability of a finite history against a sequential object.

An object is a function `apply : Op → σ → σ × Res`. A history is the list of
invocations and responses of a concurrent run, in the order in which they
happened, each call under an identity of its own. `Linearizes` says that a list of
calls is a sequential order for the history: it holds every call that has
responded, with the response the object gives it there; it may hold calls that
are still pending; it leaves the object in the given state; and a call that
responded before another was invoked comes before it.

The three rules are what can happen to such a list along a run: a call is invoked,
it takes effect (`commit`, the linearization point), it responds.
-/
import CacheLib.Lib.ListOrder

set_option autoImplicit false

namespace Linearize

open ListOrder List

variable {ι Op Res σ : Type*}

/-- What an observer sees of a call. -/
inductive Event (ι Op Res : Type*) where
  | invoke (id : ι) (op : Op)
  | respond (id : ι) (res : Res)
  deriving DecidableEq

/-- The state after a sequence of calls. -/
def finalState (apply : Op → σ → σ × Res) : σ → List (ι × Op) → σ
  | s, [] => s
  | s, (_, op) :: seq => finalState apply (apply op s).1 seq

/-- The responses of a sequence of calls. -/
def responses (apply : Op → σ → σ × Res) : σ → List (ι × Op) → List (ι × Res)
  | _, [] => []
  | s, (id, op) :: seq => (id, (apply op s).2) :: responses apply (apply op s).1 seq

/-- `seq` is a sequential order for the history `h`, from `init` to `final`. -/
structure Linearizes (apply : Op → σ → σ × Res) (init : σ) (h : List (Event ι Op Res)) (final : σ)
    (seq : List (ι × Op)) : Prop where
  nodup : (seq.map Prod.fst).Nodup
  invoked : ∀ id op, (id, op) ∈ seq → Event.invoke id op ∈ h
  completed : ∀ id res, Event.respond id res ∈ h → (id, res) ∈ responses apply init seq
  finalState_eq : finalState apply init seq = final
  realTime : ∀ a res b op, [Event.respond a res, Event.invoke b op] <+ h →
    b ∈ seq.map Prod.fst → [a, b] <+ seq.map Prod.fst

/-- The history is linearizable. -/
def Linearizable (apply : Op → σ → σ × Res) (init : σ) (h : List (Event ι Op Res)) (final : σ) :
    Prop :=
  ∃ seq, Linearizes apply init h final seq

variable {apply : Op → σ → σ × Res}

/-! ## Sequences of calls -/

theorem finalState_append (s : σ) (seq : List (ι × Op)) (id : ι) (op : Op) :
    finalState apply s (seq ++ [(id, op)]) = (apply op (finalState apply s seq)).1 := by
  induction seq generalizing s with
  | nil => rfl
  | cons p seq ih => exact ih (apply p.2 s).1

theorem responses_append (s : σ) (seq : List (ι × Op)) (id : ι) (op : Op) :
    responses apply s (seq ++ [(id, op)])
      = responses apply s seq ++ [(id, (apply op (finalState apply s seq)).2)] := by
  induction seq generalizing s with
  | nil => rfl
  | cons p seq ih =>
      have := ih (apply p.2 s).1
      simp only [cons_append, responses, finalState, this]

theorem map_fst_responses (s : σ) (seq : List (ι × Op)) :
    (responses apply s seq).map Prod.fst = seq.map Prod.fst := by
  induction seq generalizing s with
  | nil => rfl
  | cons p seq ih => simp only [responses, map_cons, ih]

theorem mem_of_mem_responses {s : σ} {seq : List (ι × Op)} {id : ι} {res : Res}
    (h : (id, res) ∈ responses apply s seq) : id ∈ seq.map Prod.fst := by
  rw [← map_fst_responses s seq]
  exact mem_map_of_mem h

/-! ## The three rules -/

namespace Linearizes

variable {init final : σ} {h : List (Event ι Op Res)} {seq : List (ι × Op)}

theorem nil : Linearizes apply init ([] : List (Event ι Op Res)) init [] where
  nodup := nodup_nil
  invoked := by intro id op hmem; simp at hmem
  completed := by intro id res hmem; simp at hmem
  finalState_eq := rfl
  realTime := by intro a res b op hsub hb; simp at hb

/-- **A call is invoked** under a fresh identity: the order stays. -/
theorem invoke (hl : Linearizes apply init h final seq) {id : ι} (op : Op)
    (hfresh : ∀ op, Event.invoke id op ∉ h) :
    Linearizes apply init (h ++ [.invoke id op]) final seq where
  nodup := hl.nodup
  invoked id' op' hmem := mem_append_left _ (hl.invoked id' op' hmem)
  completed := by
    intro id' res hmem
    rcases mem_append.mp hmem with hmem | hmem
    · exact hl.completed id' res hmem
    · simp at hmem
  finalState_eq := hl.finalState_eq
  realTime := by
    intro a res b op' hsub hb
    rcases pair_sublist_append_singleton hsub with hsub | ⟨_, heq⟩
    · exact hl.realTime a res b op' hsub hb
    · -- the new call is not in the order yet
      injection heq with hid _
      rw [hid] at hb
      obtain ⟨⟨b', o⟩, hmem, hb'⟩ := mem_map.mp hb
      exact absurd (hl.invoked b' o hmem) (by rw [show b' = id from hb']; exact hfresh o)

/-- **A call takes effect** at the end of the order. -/
theorem commit (hl : Linearizes apply init h final seq) {id : ι} {op : Op}
    (hinvoked : Event.invoke id op ∈ h) (hnew : id ∉ seq.map Prod.fst) :
    Linearizes apply init h (apply op final).1 (seq ++ [(id, op)]) ∧
      (id, (apply op final).2) ∈ responses apply init (seq ++ [(id, op)]) := by
  have hresponses : responses apply init (seq ++ [(id, op)])
      = responses apply init seq ++ [(id, (apply op final).2)] := by
    rw [responses_append, hl.finalState_eq]
  refine ⟨⟨?_, ?_, ?_, ?_, ?_⟩, ?_⟩
  · rw [map_append, nodup_append]
    refine ⟨hl.nodup, by simp, ?_⟩
    intro a ha b hb hab
    rw [map_singleton, mem_singleton] at hb
    rw [hab, hb] at ha
    exact hnew ha
  · intro id' op' hmem
    rcases mem_append.mp hmem with hmem | hmem
    · exact hl.invoked id' op' hmem
    · rw [mem_singleton, Prod.mk.injEq] at hmem
      rw [hmem.1, hmem.2]
      exact hinvoked
  · intro id' res hmem
    rw [hresponses]
    exact mem_append_left _ (hl.completed id' res hmem)
  · rw [finalState_append, hl.finalState_eq]
  · intro a res b op' hsub hb
    rw [map_append, map_singleton] at hb ⊢
    rcases mem_append.mp hb with hb | hb
    · exact (hl.realTime a res b op' hsub hb).trans (sublist_append_left _ _)
    · -- a call that has responded stands in the old part of the order
      have hresponded : Event.respond a res ∈ h :=
        singleton_sublist.mp ((sublist_append_left [_] [_]).trans hsub)
      have ha := mem_of_mem_responses (hl.completed a res hresponded)
      rw [mem_singleton.mp hb]
      exact (singleton_sublist.mpr ha).append (Sublist.refl [id])
  · rw [hresponses]
    exact mem_append_right _ (mem_singleton.mpr rfl)

/-- **A call responds** with what the object answered it in the order. -/
theorem respond (hl : Linearizes apply init h final seq) {id : ι} {res : Res}
    (hres : (id, res) ∈ responses apply init seq) :
    Linearizes apply init (h ++ [.respond id res]) final seq where
  nodup := hl.nodup
  invoked id' op' hmem := mem_append_left _ (hl.invoked id' op' hmem)
  completed := by
    intro id' res' hmem
    rcases mem_append.mp hmem with hmem | hmem
    · exact hl.completed id' res' hmem
    · rw [mem_singleton, Event.respond.injEq] at hmem
      rw [hmem.1, hmem.2]
      exact hres
  finalState_eq := hl.finalState_eq
  realTime := by
    intro a res' b op' hsub hb
    rcases pair_sublist_append_singleton hsub with hsub | ⟨_, heq⟩
    · exact hl.realTime a res' b op' hsub hb
    · exact absurd heq (by simp)

end Linearizes

end Linearize
