/-
Runs of a partial step function, and the induction every safety result of this
development goes through.

A system is a function `step : σ → ℓ → Option σ`: the label says who moves and
with which inputs, `none` says the label is not enabled in that state. `exec`
takes the labels one after another. An interleaving of several parties is a
list of labels, so a statement over every list is a statement over every
interleaving.

There is one induction over runs, `exec_invariant_history`, and forms of it for an
invariant of the state alone, without a condition on the steps, and for one that
counts certain steps. A `while` loop within a step is a `loop`, with its own rule.
-/
import Mathlib.Data.List.Basic

set_option autoImplicit false

namespace Transition

variable {σ ℓ : Type*}

/-- The state after the labels `ls`, if each of them is enabled in its turn. -/
def exec (step : σ → ℓ → Option σ) : σ → List ℓ → Option σ
  | s, [] => some s
  | s, l :: ls => (step s l).bind fun t => exec step t ls

/-- Every step of the run meets `C`, read in the state the step starts from. -/
def Along (step : σ → ℓ → Option σ) (C : σ → ℓ → Prop) : σ → List ℓ → Prop
  | _, [] => True
  | s, l :: ls => C s l ∧ ∀ t, step s l = some t → Along step C t ls

variable {step : σ → ℓ → Option σ} {C : σ → ℓ → Prop} {Inv : σ → Prop} {s u : σ} {ls : List ℓ}

@[simp] theorem exec_nil (s : σ) : exec step s [] = some s := rfl

theorem exec_cons (s : σ) (l : ℓ) (ls : List ℓ) :
    exec step s (l :: ls) = (step s l).bind fun t => exec step t ls := rfl

theorem exec_cons_eq_some {l : ℓ} :
    exec step s (l :: ls) = some u ↔ ∃ t, step s l = some t ∧ exec step t ls = some u := by
  rw [exec_cons, Option.bind_eq_some_iff]

theorem exec_append (s : σ) (ls ls' : List ℓ) :
    exec step s (ls ++ ls') = (exec step s ls).bind fun t => exec step t ls' := by
  induction ls generalizing s with
  | nil => rfl
  | cons l ls ih =>
      rw [List.cons_append, exec_cons, exec_cons, Option.bind_assoc]
      exact congrArg _ (funext fun t => ih t)

/-- Whether a run meets a decidable condition is decided by running it. -/
instance Along.decidable [∀ s l, Decidable (C s l)] :
    ∀ (s : σ) (ls : List ℓ), Decidable (Along step C s ls)
  | _, [] => isTrue trivial
  | s, l :: ls =>
      match hstep : step s l with
      | none => decidable_of_iff (C s l) (by simp [Along, hstep])
      | some t =>
          have := Along.decidable t ls
          decidable_of_iff (C s l ∧ Along step C t ls) (by simp [Along, hstep])

/-- Whether a run ends in a state with a decidable property is decided by running it. -/
instance decidableEnds {α : Type*} (o : Option α) (P : α → Prop) [DecidablePred P] :
    Decidable (∃ a, o = some a ∧ P a) :=
  decidable_of_iff (o.any fun a => decide (P a)) (by simp [Option.any_eq_true])

/-- Two conditions met along a run are met together. -/
theorem Along.and {D : σ → ℓ → Prop} (hC : Along step C s ls)
    (hD : Along step D s ls) : Along step (fun s l => C s l ∧ D s l) s ls := by
  induction ls generalizing s with
  | nil => trivial
  | cons l ls ih => exact ⟨⟨hC.1, hD.1⟩, fun t ht => ih (hC.2 t ht) (hD.2 t ht)⟩

theorem Along.mono {D : σ → ℓ → Prop} (hC : Along step C s ls)
    (h : ∀ s l, C s l → D s l) : Along step D s ls := by
  induction ls generalizing s with
  | nil => trivial
  | cons l ls ih => exact ⟨h s l hC.1, fun t ht => ih (hC.2 t ht)⟩

/-- A condition on the labels alone is met along every run of them. -/
theorem Along.of_forall (h : ∀ l ∈ ls, ∀ s, C s l) :
    Along step C s ls := by
  induction ls generalizing s with
  | nil => trivial
  | cons l ls ih =>
      refine ⟨h l List.mem_cons_self s, ?_⟩
      intro t _
      exact ih fun l' hl' => h l' (List.mem_cons_of_mem _ hl')

/-- **The invariant rule for a state and its history.** The invariant may speak of the
labels that led to the state. A step has to keep it only where it meets `C`; a run all of
whose steps do, keeps it throughout. -/
theorem exec_invariant_history {Inv : List ℓ → σ → Prop}
    (hstep : ∀ past s l t, Inv past s → C s l → step s l = some t → Inv (past ++ [l]) t)
    {s u : σ} {ls : List ℓ} (hrun : exec step s ls = some u) (hC : Along step C s ls)
    (hs : Inv [] s) : Inv ls u := by
  -- The run goes on from any past: that is what the induction on its labels needs.
  suffices hpast : ∀ past, Inv past s → Inv (past ++ ls) u from hpast [] hs
  clear hs
  induction ls generalizing s with
  | nil =>
      intro past hs
      rw [exec_nil, Option.some.injEq] at hrun
      rw [List.append_nil]
      exact hrun ▸ hs
  | cons l ls ih =>
      intro past hs
      obtain ⟨t, ht, hu⟩ := exec_cons_eq_some.mp hrun
      rw [List.append_cons]
      exact ih hu (hC.2 t ht) (past ++ [l]) (hstep past s l t hs hC.1 ht)

/-- **The invariant rule under a condition**, for an invariant of the state alone. -/
theorem exec_invariant_along (hstep : ∀ s l t, Inv s → C s l → step s l = some t → Inv t)
    {s u : σ} {ls : List ℓ} (hrun : exec step s ls = some u) (hC : Along step C s ls)
    (hs : Inv s) : Inv u := by
  have hhistory : ∀ (past : List ℓ) s l t, Inv s → C s l → step s l = some t → Inv t :=
    fun _ => hstep
  exact exec_invariant_history hhistory hrun hC hs

/-- **The invariant rule.** What every step keeps, every run keeps. -/
theorem exec_invariant (hstep : ∀ s l t, Inv s → step s l = some t → Inv t)
    {s u : σ} {ls : List ℓ} (hrun : exec step s ls = some u) (hs : Inv s) : Inv u := by
  refine exec_invariant_along (C := fun _ _ => True) ?_ hrun ?_ hs
  · intro s l t hinv _ ht
    exact hstep s l t hinv ht
  · exact Along.of_forall fun _ _ _ => trivial

/-- **Two systems that move in step.** Each label is enabled in both or in neither, and takes related
states to related ones; then so does every run. -/
theorem exec_rel {τ : Type*} {step' : τ → ℓ → Option τ} {R : σ → τ → Prop}
    (hstep : ∀ s t l, R s t → C s l → Option.Rel R (step s l) (step' t l))
    {t : τ} (hC : Along step C s ls) (hst : R s t) :
    Option.Rel R (exec step s ls) (exec step' t ls) := by
  induction ls generalizing s t with
  | nil => exact .some hst
  | cons l ls ih =>
      rw [exec_cons, exec_cons]
      have hl := hstep s t l hst hC.1
      generalize hs : step s l = next at hl ⊢
      generalize step' t l = next' at hl ⊢
      cases hl with
      | none => exact .none
      | some hrel => exact ih (hC.2 _ hs) hrel

/-! ## Counting along a run -/

section Tally

variable {ι : Type*} {f : σ → ℓ → ℕ}

/-- The sum of `f` over the steps of a run, each read in the state it starts from. -/
def tally (step : σ → ℓ → Option σ) (f : σ → ℓ → ℕ) : σ → List ℓ → ℕ
  | _, [] => 0
  | s, l :: ls => f s l + (step s l).elim 0 fun t => tally step f t ls

/-- The last step of a run is counted in the state that the others lead to. -/
theorem tally_concat {s t : σ} (hrun : exec step s ls = some t) (l : ℓ) :
    tally step f s (ls ++ [l]) = tally step f s ls + f t l := by
  induction ls generalizing s with
  | nil =>
      rw [exec_nil, Option.some.injEq] at hrun
      subst hrun
      cases hstep : step s l <;> simp [tally, hstep]
  | cons first ls ih =>
      obtain ⟨u, hu, hrest⟩ := exec_cons_eq_some.mp hrun
      simp only [List.cons_append, tally, hu, Option.elim_some, ih hrest]
      omega

/-- What no step adds to is not counted. -/
theorem tally_eq_zero (h : Along step (fun s l => f s l = 0) s ls) :
    tally step f s ls = 0 := by
  induction ls generalizing s with
  | nil => rfl
  | cons l ls ih =>
      rw [tally, h.1, Nat.zero_add]
      cases hstep : step s l with
      | none => rfl
      | some t => exact ih (h.2 t hstep)

/-- **The invariant rule with counters.** The invariant may speak of what has been counted so far,
under any number of headings. -/
theorem exec_invariant_tally {f : ι → σ → ℓ → ℕ} {Inv : (ι → ℕ) → σ → Prop}
    (hstep : ∀ n s l t, Inv n s → C s l → step s l = some t → Inv (fun i => n i + f i s l) t)
    {s u : σ} {ls : List ℓ} (hrun : exec step s ls = some u) (hC : Along step C s ls)
    (hs : Inv (fun _ => 0) s) : Inv (fun i => tally step (f i) s ls) u := by
  -- The labels so far determine the counters and the state.
  let Reached : List ℓ → σ → Prop := fun past t =>
    exec step s past = some t ∧ Inv (fun i => tally step (f i) s past) t
  have hreached : ∀ past t l t', Reached past t → C t l → step t l = some t' →
      Reached (past ++ [l]) t' := by
    rintro past t l t' ⟨hpast, hinv⟩ hCl ht
    constructor
    · rw [exec_append, hpast, Option.bind_some, exec_cons, ht]
      rfl
    · simp only [tally_concat hpast]
      exact hstep _ t l t' hinv hCl ht
  exact (exec_invariant_history hreached hrun hC ⟨exec_nil s, hs⟩).2

end Tally

/-! ## Loops -/

section Loop

variable {guard : σ → Bool} {body : σ → Option σ}

/-- `while (guard) body`, for at most `n` rounds. There is no result if a round has none. -/
def loop (guard : σ → Bool) (body : σ → Option σ) : ℕ → σ → Option σ
  | 0, s => some s
  | n + 1, s => if guard s then (body s).bind (loop guard body n) else some s

/-- **The rule for loops.** What a round keeps holds at the end, and the loop does come to its end
if the bound on the rounds is a measure that each of them makes smaller. -/
theorem loop_ends {measure : σ → ℕ}
    (hbody : ∀ s, Inv s → guard s = true → ∃ t, body s = some t ∧ Inv t ∧ measure t < measure s)
    {n : ℕ} (hs : Inv s) (hn : measure s ≤ n) :
    ∃ t, loop guard body n s = some t ∧ Inv t ∧ guard t = false := by
  induction n generalizing s with
  | zero =>
      refine ⟨s, rfl, hs, Bool.eq_false_iff.mpr fun hguard => ?_⟩
      obtain ⟨t, -, -, hlt⟩ := hbody s hs hguard
      omega
  | succ n ih =>
      by_cases hguard : guard s = true
      · obtain ⟨t, ht, hinv, hlt⟩ := hbody s hs hguard
        rw [loop, if_pos hguard, ht, Option.bind_some]
        exact ih hinv (by omega)
      · rw [loop, if_neg hguard]
        exact ⟨s, rfl, hs, Bool.eq_false_iff.mpr hguard⟩

end Loop

end Transition
