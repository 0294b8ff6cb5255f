/-
Runs of `MM2Q`.

In every run the container does what the machine without tails does: the queues stay in
order, the nodes are evicted in the order of its lists, and two containers that differ only
in the size of their tails evict the same ones.

All of this rests on one condition. `replace` sets flags of the new node and clears none,
so a node that has been in the container before must not have flags that do not go with
the queue of the old one.
-/
import CacheLib.Allocator.MM2QRefinement

set_option autoImplicit false

namespace CacheLib.MM2Q

open Transition

variable {α : Type*} [DecidableEq α] {cfg : Config} {s s₀ : State α} {a : Lru α} {x : α}

/-! ## Queues in order -/

omit [DecidableEq α] in
theorem Refines.inv (h : Refines cfg s a) : Inv cfg s := by
  obtain ⟨M, q, hq⟩ := h
  exact ⟨M, q, hq.toQueues⟩

theorem exists_refines {time : UInt32} {ops : List (Op α)}
    (hsuitable : Along (step cfg) (SuitableReplace cfg) (init cfg time) ops)
    (hrun : exec (step cfg) (init cfg time) ops = some s) : ∃ a, Refines cfg s a := by
  have hkeeps : ∀ (s : State α) op s', (∃ a, Refines cfg s a) → SuitableReplace cfg s op →
      step cfg s op = some s' → ∃ a, Refines cfg s' a := by
    rintro s op s' ⟨a, ha⟩ hsuits hstep
    have hrel := ha.step hsuits
    rw [hstep] at hrel
    generalize Lru.step cfg a op = a' at hrel
    cases hrel with
    | some hrefines => exact ⟨_, hrefines⟩
  exact exec_invariant_along hkeeps hrun hsuitable ⟨_, refines_init cfg time⟩

/-- **In every run the queues stay in order**, as long as each node that replaces another one has no
flags that do not go with the queue of that one; and the calls that rebalance come to an end. -/
theorem queues_inOrder {time : UInt32} {ops : List (Op α)}
    (hsuitable : Along (step cfg) (SuitableReplace cfg) (init cfg time) ops)
    (hrun : exec (step cfg) (init cfg time) ops = some s) :
    InOrder cfg s ∧ ∀ node, (∀ currTime, (add cfg s node currTime).isSome) ∧
      (remove cfg s node).isSome ∧ ∀ access, (recordAccess cfg s node access).isSome := by
  obtain ⟨a, ha⟩ := exists_refines hsuitable hrun
  refine ⟨ha.inv.inOrder, fun node => ⟨fun currTime => ?_, ?_, fun access => ?_⟩⟩
  · obtain ⟨r, hr, -⟩ := ha.add node currTime
    rw [hr, Option.isSome_some]
  · obtain ⟨r, hr, -⟩ := ha.remove node
    rw [hr, Option.isSome_some]
  · obtain ⟨r, hr, -⟩ := ha.recordAccess node access
    rw [hr, Option.isSome_some]

/-! ### Two nodes -/

instance (cfg : Config) (oldNode newNode : Node) : Decidable (Suits cfg oldNode newNode) :=
  match h : getLruType cfg oldNode with
  | .hot => decidable_of_iff (inTail cfg newNode = false) (by rw [Suits, h])
  | .cold => decidable_of_iff (newNode.hot = false ∧ inTail cfg newNode = false) (by rw [Suits, h])
  | .coldTail => decidable_of_iff (newNode.hot = false) (by rw [Suits, h])
  | .warm =>
      decidable_of_iff (newNode.hot = false ∧ newNode.cold = false ∧ inTail cfg newNode = false)
        (by rw [Suits, h])
  | .warmTail => decidable_of_iff (newNode.hot = false ∧ newNode.cold = false) (by rw [Suits, h])

instance (cfg : Config) (s : State α) (op : Op α) : Decidable (SuitableReplace cfg s op) :=
  match op with
  | .replace _ _ => inferInstanceAs (Decidable (_ → _ → _))
  | .add _ _ => isTrue trivial
  | .remove _ => isTrue trivial
  | .recordAccess _ _ => isTrue trivial
  | .withEvictionIterator _ => isTrue trivial

/-- The queues are rebalanced only when a node is added or removed. -/
def calm : Config where
  rebalanceOnRecordAccess := false

/-- The node 0 has been in the cold queue, and takes the place of one that is there. -/
def coldForCold : List (Op ℕ) :=
  [.add 0 0, .add 1 0, .remove 0, .replace 1 0, .recordAccess 0 { curr := 100 }, .add 2 100,
    .withEvictionIterator [.next, .remove]]

theorem queues_inOrder_coldForCold :
    ∃ s, exec (step calm) (init calm 0) coldForCold = some s ∧
      (s.getList .cold).head = some 0 ∧ s.size .cold = 1 ∧ InOrder calm s := by
  obtain ⟨s, hs, hhead, hsize⟩ : ∃ s, exec (step calm) (init calm 0) coldForCold = some s ∧
      (s.getList .cold).head = some 0 ∧ s.size .cold = 1 := by decide +kernel
  exact ⟨s, hs, hhead, hsize, (queues_inOrder (by decide +kernel) hs).1⟩

/-- Now it takes the place of a node that has become warm since. -/
def coldForWarm : List (Op ℕ) :=
  [.add 0 0, .add 1 0, .remove 0, .recordAccess 1 { curr := 100 }, .replace 1 0]

/-- `replace` clears no flags, so the node 0 is linked in `Warm` and its flags say `Cold`. -/
theorem coldForWarm_not_inOrder :
    ∃ s, exec (step calm) (init calm 0) coldForWarm = some s ∧
      (s.node 0).inMMContainer = true ∧ (s.getList .warm).head = some 0 ∧
      getLruType calm (s.node 0) = .cold ∧ ¬ InOrder calm s := by
  obtain ⟨s, hs, hmarked, hwarm, htype, hcold⟩ :
      ∃ s, exec (step calm) (init calm 0) coldForWarm = some s ∧ (s.node 0).inMMContainer = true ∧
        (s.getList .warm).head = some 0 ∧ getLruType calm (s.node 0) = .cold ∧
        (s.getList .cold).head = none := by decide +kernel
  refine ⟨s, hs, hmarked, hwarm, htype, ?_⟩
  rintro ⟨q, hq, hnodes⟩
  have hnode := hnodes 0
  rw [if_pos hmarked, htype] at hnode
  -- the node would have to be in a queue that is empty
  have hmem : 0 ∈ q .cold := (hnode .cold).mpr rfl
  have hempty : q .cold = [] := List.head?_eq_none_iff.mp ((hq .cold).head_eq.symm.trans hcold)
  rw [hempty] at hmem
  exact List.not_mem_nil hmem

/-! ## The order of eviction -/

omit [DecidableEq α] in
/-- From its start on the iterator has the nodes in their order, and then comes to the end. -/
theorem Refines.iterate_goForward (h : Refines cfg s a) (n : ℕ) :
    ((goForward s)^[n] (rbeginFrom s evictionOrder)).curr = a.evictionOrder[n]? := by
  obtain ⟨M, q, hq⟩ := h
  have hahead : Ahead q ((goForward s)^[n] (rbeginFrom s evictionOrder)) (a.evictionOrder.drop n) := by
    induction n with
    | zero => exact hq.ahead_rbegin
    | succ n ih =>
        rw [Function.iterate_succ_apply', ← List.tail_drop]
        exact ih.goForward hq.toQueues
  rw [hahead.curr_eq, List.head?_drop]

/-- **The container is three lists.** As long as each node that replaces another one suits it, any
calls are possible in `MM2Q` if and only if they are in `Lru`. Then the nodes that are marked are
those of the lists, and the eviction iterator visits each of them once, from the last cold one to
the first warm one. -/
theorem visits_evictionOrder (cfg : Config) (time : UInt32) (ops : List (Op α))
    (hsuitable : Along (step cfg) (SuitableReplace cfg) (init cfg time) ops) :
    Option.Rel (fun (s : State α) a => s.lruSize = a.size ∧ a.evictionOrder.Nodup ∧
        (∀ x, (s.node x).inMMContainer = true ↔ x ∈ a.evictionOrder) ∧
        ∀ n, ((goForward s)^[n] (rbeginFrom s evictionOrder)).curr = a.evictionOrder[n]?)
      (exec (step cfg) (init cfg time) ops) (exec (Lru.step cfg) (Lru.init cfg time) ops) := by
  have hrel := exec_rel (fun _ _ _ (h : Refines cfg _ _) hsuits => h.step hsuits) hsuitable
    (refines_init cfg time)
  generalize exec (step cfg) (init cfg time) ops = r at hrel ⊢
  generalize exec (Lru.step cfg) (Lru.init cfg time) ops = r' at hrel ⊢
  cases hrel with
  | none => exact .none
  | some h =>
      refine .some ⟨?_, ?_, fun x => h.marked_iff, h.iterate_goForward⟩
      · obtain ⟨M, q, hq⟩ := h
        exact hq.lruSize_eq
      · obtain ⟨M, q, hq⟩ := h
        exact hq.ahead_rbegin.nodup hq.toQueues

theorem visits_evictionOrder_coldForCold :
    ∃ s a, exec (step calm) (init calm 0) coldForCold = some s ∧
      exec (Lru.step calm) (Lru.init calm 0) coldForCold = some a ∧ s.size .cold = 1 ∧
      ∀ n, ((goForward s)^[n] (rbeginFrom s evictionOrder)).curr = a.evictionOrder[n]? := by
  obtain ⟨s, hs, hsize⟩ : ∃ s, exec (step calm) (init calm 0) coldForCold = some s ∧
      s.size .cold = 1 := by decide +kernel
  have hrel := visits_evictionOrder calm 0 coldForCold (by decide +kernel)
  rw [hs] at hrel
  generalize ha : exec (Lru.step calm) (Lru.init calm 0) coldForCold = r at hrel
  cases hrel with
  | some h => exact ⟨s, _, hs, rfl, hsize, h.2.2.2⟩

/-! ## Tails or none -/

/-- **The same nodes in the same order.** `s₀` has no tails; each of its queues is the one of `s`,
followed by the tail of that. -/
def SameQueues (s s₀ : State α) : Prop :=
  ∃ q q₀ : LruType → List α, (∀ t, (s.getList t).Holds s.lru.links (q t)) ∧
    (∀ t, (s₀.getList t).Holds s₀.lru.links (q₀ t)) ∧ q₀ .warmTail = [] ∧ q₀ .coldTail = [] ∧
    q .warm ++ q .warmTail = q₀ .warm ∧ q .hot = q₀ .hot ∧ q .cold ++ q .coldTail = q₀ .cold

/-- Which flags a new node may have from before, if there are no tails -/
def Temp.Suits : Temp → Temp → Prop
  | .hot, _ => True
  | .cold, t => t ≠ .hot
  | .warm, t => t = .warm

omit [DecidableEq α] in
theorem Suits.temps {oldNode newNode : Node} (h : Suits cfg oldNode newNode) :
    Temp.Suits oldNode.temp newNode.temp := by
  unfold MM2Q.Suits getLruType at h
  unfold Node.temp
  cases hhot : oldNode.hot <;> cases hcold : oldNode.cold <;> cases htail : inTail cfg oldNode <;>
    cases hhot' : newNode.hot <;> cases hcold' : newNode.cold <;>
      simp_all [Temp.Suits]

omit [DecidableEq α] in
theorem Temp.Suits.suits {oldNode newNode : Node} (hcfg : cfg.tailSize = 0)
    (h : Temp.Suits oldNode.temp newNode.temp) : MM2Q.Suits cfg oldNode newNode := by
  have htail : ∀ n, inTail cfg n = false := fun n => by simp [inTail, hcfg]
  unfold Node.temp at h
  unfold MM2Q.Suits getLruType
  simp only [htail]
  cases hhot : oldNode.hot <;> cases hcold : oldNode.cold <;> cases hhot' : newNode.hot <;>
    cases hcold' : newNode.cold <;> simp_all [Temp.Suits]

theorem Refines.temp_eq (h : Refines cfg s a) (hx : (s.node x).inMMContainer = true) :
    (s.node x).temp = a.temp x := by
  obtain ⟨M, q, hq⟩ := h
  have hmem := hq.mem_getLruType (hq.toQueues.marked_iff.mpr hx)
  rw [(hq.denotes hmem).temp, hq.temp_eq hmem]

omit [DecidableEq α] in
theorem Refines.left_eq (h : Refines cfg s a) (hx : (s.node x).inMMContainer = false) :
    (s.node x).temp = a.left x := by
  obtain ⟨M, q, hq⟩ := h
  exact hq.left_eq x fun hmem => by simp [hq.toQueues.marked_iff.mp hmem] at hx

/-- Two containers that are one and the same without tails -/
def Alike (cfg cfg₀ : Config) (s s₀ : State α) : Prop :=
  ∃ a, Refines cfg s a ∧ Refines cfg₀ s₀ a

variable {cfg₀ : Config}

/-- What suits the container with tails suits the one without. -/
theorem Alike.suitable (h : Alike cfg cfg₀ s s₀) (hcfg₀ : cfg₀.tailSize = 0) {op : Op α}
    (hsuitable : SuitableReplace cfg s op) : SuitableReplace cfg₀ s₀ op := by
  cases op with
  | replace oldNode newNode =>
      obtain ⟨a, ha, ha₀⟩ := h
      intro hold₀ hnew₀
      have hold := ha.marked_iff.mpr (ha₀.marked_iff.mp hold₀)
      have hnew : (s.node newNode).inMMContainer = false := by
        rw [Bool.eq_false_iff, Ne, ha.marked_iff, ← ha₀.marked_iff, hnew₀]
        exact Bool.false_ne_true
      have htemps := (hsuitable hold hnew).temps
      rw [ha.temp_eq hold, ha.left_eq hnew, ← ha₀.temp_eq hold₀, ← ha₀.left_eq hnew₀] at htemps
      exact htemps.suits hcfg₀
  | add => trivial
  | remove => trivial
  | recordAccess => trivial
  | withEvictionIterator => trivial

theorem Alike.step (h : Alike cfg cfg₀ s s₀) (hcfg₀ : cfg₀.tailSize = 0)
    (hsame : ∀ a : Lru α, Lru.step cfg a = Lru.step cfg₀ a) {op : Op α}
    (hsuitable : SuitableReplace cfg s op) :
    Option.Rel (Alike cfg cfg₀) (MM2Q.step cfg s op) (MM2Q.step cfg₀ s₀ op) := by
  have hsuitable₀ := h.suitable hcfg₀ hsuitable
  obtain ⟨a, ha, ha₀⟩ := h
  have hrel := ha.step hsuitable
  have hrel₀ := ha₀.step hsuitable₀
  rw [hsame] at hrel
  generalize MM2Q.step cfg s op = next at hrel ⊢
  generalize MM2Q.step cfg₀ s₀ op = next₀ at hrel₀ ⊢
  generalize Lru.step cfg₀ a op = next' at hrel hrel₀
  cases hrel with
  | none =>
      cases hrel₀ with
      | none => exact .none
  | some hrefines =>
      cases hrel₀ with
      | some hrefines₀ => exact .some ⟨_, hrefines, hrefines₀⟩

omit [DecidableEq α] in
theorem Alike.sameQueues (h : Alike cfg cfg₀ s s₀) (hcfg₀ : cfg₀.tailSize = 0) :
    SameQueues s s₀ := by
  obtain ⟨a, ⟨M, q, hq⟩, ⟨M₀, q₀, hq₀⟩⟩ := h
  have htail : ∀ x, inTail cfg₀ (s₀.node x) = false := fun x => by simp [inTail, hcfg₀]
  have hwarmTail : q₀ .warmTail = [] := by
    refine List.eq_nil_iff_forall_not_mem.mpr fun x hx => ?_
    exact Bool.false_ne_true ((htail x).symm.trans (hq₀.denotes hx).2.2)
  have hcoldTail : q₀ .coldTail = [] := by
    refine List.eq_nil_iff_forall_not_mem.mpr fun x hx => ?_
    exact Bool.false_ne_true ((htail x).symm.trans (hq₀.denotes hx).2.2)
  have hjoined : ∀ t, joined q t = joined q₀ t := fun t => by rw [← hq.queue_eq, hq₀.queue_eq]
  refine ⟨q, q₀, hq.holds.list, hq₀.holds.list, hwarmTail, hcoldTail, ?_, hjoined .hot, ?_⟩
  · have hwarm := hjoined .warm
    rwa [joined, joined, hwarmTail, List.append_nil] at hwarm
  · have hcold := hjoined .cold
    rwa [joined, joined, hcoldTail, List.append_nil] at hcold

omit [DecidableEq α] in
/-- Both iterators start at the same node. -/
theorem Alike.rbegin_curr_eq (h : Alike cfg cfg₀ s s₀) :
    (rbeginFrom s evictionOrder).curr = (rbeginFrom s₀ evictionOrder).curr := by
  obtain ⟨a, ⟨M, q, hq⟩, ⟨M₀, q₀, hq₀⟩⟩ := h
  rw [hq.ahead_rbegin.curr_eq, hq₀.ahead_rbegin.curr_eq]

/-- **Tails do not change what is evicted**, as long as each node that replaces another one suits it
in the container with tails. Any calls are possible in both containers or in neither; after them the
two hold the same nodes in the same order, and the eviction starts at the same node. -/
theorem sameQueues_of_suitable (cfg : Config) (tailSize : UInt64) (time : UInt32)
    (ops : List (Op α))
    (hsuitable : Along (step { cfg with tailSize }) (SuitableReplace { cfg with tailSize })
      (init { cfg with tailSize } time) ops) :
    Option.Rel (fun s s₀ => SameQueues s s₀ ∧
        (rbeginFrom s evictionOrder).curr = (rbeginFrom s₀ evictionOrder).curr)
      (exec (step { cfg with tailSize }) (init { cfg with tailSize } time) ops)
      (exec (step { cfg with tailSize := 0 }) (init { cfg with tailSize := 0 } time) ops) := by
  let cfg₁ : Config := { cfg with tailSize }
  let cfg₀ : Config := { cfg with tailSize := 0 }
  have hinit : Alike cfg₁ cfg₀ (init cfg₁ time : State α) (init cfg₀ time) :=
    ⟨_, refines_init cfg₁ time, refines_init cfg₀ time⟩
  have hsame : ∀ a : Lru α, Lru.step cfg₁ a = Lru.step cfg₀ a := fun a =>
    Lru.step_tailSize cfg₀ a tailSize
  have hstep : ∀ s s₀ op, Alike cfg₁ cfg₀ s s₀ → SuitableReplace cfg₁ s op →
      Option.Rel (Alike cfg₁ cfg₀) (step cfg₁ s op) (step cfg₀ s₀ op) :=
    fun _ _ _ halike hsuits => halike.step rfl hsame hsuits
  have hrel := exec_rel hstep hsuitable hinit
  show Option.Rel _ (exec (step cfg₁) (init cfg₁ time) ops) (exec (step cfg₀) (init cfg₀ time) ops)
  generalize exec (step cfg₁) (init cfg₁ time) ops = r at hrel ⊢
  generalize exec (step cfg₀) (init cfg₀ time) ops = r₀ at hrel ⊢
  cases hrel with
  | none => exact .none
  | some halike => exact .some ⟨halike.sameQueues rfl, halike.rbegin_curr_eq⟩

/-- The node 2 has been in the cold queue itself, and takes the place of one that is there. -/
def coldForColdHead : List (Op ℕ) :=
  [.add 0 0, .add 1 0, .add 2 0, .remove 2, .replace 1 2, .recordAccess 0 { curr := 100 },
    .add 3 100]

theorem sameQueues_of_suitable_coldForColdHead :
    ∃ s s₀, exec (step { tailSize := 1 }) (init { tailSize := 1 } 0) coldForColdHead = some s ∧
      exec (step { tailSize := 0 }) (init { tailSize := 0 } 0) coldForColdHead = some s₀ ∧
      s.size .cold = 2 ∧ s.size .coldTail = 1 ∧ s₀.size .cold = 3 ∧ SameQueues s s₀ := by
  obtain ⟨s, hs, s₀, hs₀, hsizes⟩ :
      ∃ s, exec (step { tailSize := 1 }) (init { tailSize := 1 } 0) coldForColdHead = some s ∧
        ∃ s₀, exec (step { tailSize := 0 }) (init { tailSize := 0 } 0) coldForColdHead = some s₀ ∧
          s.size .cold = 2 ∧ s.size .coldTail = 1 ∧ s₀.size .cold = 3 := by decide +kernel
  have hrel := sameQueues_of_suitable {} 1 0 coldForColdHead (by decide +kernel)
  rw [hs, hs₀] at hrel
  cases hrel with
  | some hsame => exact ⟨s, s₀, hs, hs₀, hsizes.1, hsizes.2.1, hsizes.2.2, hsame.1⟩

/-- The node 0 has been in the tail of the cold queue, and takes the place of a node that is in the
cold queue itself. -/
def coldTailForCold : List (Op ℕ) :=
  [.add 0 0, .add 1 0, .remove 0, .add 2 0, .replace 2 0, .remove 0, .withEvictionIterator [.remove],
    .add 3 0]

/-- By its tail flag the node 0 is unlinked from the wrong list. It stays the tail of `ColdTail`, and
is the next one to be evicted though it is not in the container. -/
theorem coldTailForCold_not_sameQueues :
    ∃ s s₀, exec (step { tailSize := 1 }) (init { tailSize := 1 } 0) coldTailForCold = some s ∧
      exec (step { tailSize := 0 }) (init { tailSize := 0 } 0) coldTailForCold = some s₀ ∧
      (rbeginFrom s evictionOrder).curr = some 0 ∧ (s.node 0).inMMContainer = false ∧
      (rbeginFrom s₀ evictionOrder).curr = some 3 ∧ ¬ SameQueues s s₀ := by
  obtain ⟨s, hs, s₀, hs₀, hcurr, hmarked, hcurr₀, htail, htail₀⟩ :
      ∃ s, exec (step { tailSize := 1 }) (init { tailSize := 1 } 0) coldTailForCold = some s ∧
        ∃ s₀, exec (step { tailSize := 0 }) (init { tailSize := 0 } 0) coldTailForCold = some s₀ ∧
          (rbeginFrom s evictionOrder).curr = some 0 ∧ (s.node 0).inMMContainer = false ∧
          (rbeginFrom s₀ evictionOrder).curr = some 3 ∧ (s.getList .coldTail).tail = some 0 ∧
          (s₀.getList .cold).tail = some 3 := by decide +kernel
  refine ⟨s, s₀, hs, hs₀, hcurr, hmarked, hcurr₀, ?_⟩
  rintro ⟨q, q₀, hq, hq₀, -, -, -, -, hcold⟩
  -- the cold list would end in 0 and in 3
  have hlast : (q .coldTail).getLast? = some 0 := (hq .coldTail).tail_eq.symm.trans htail
  have hlast₀ : (q₀ .cold).getLast? = some 3 := (hq₀ .cold).tail_eq.symm.trans htail₀
  rw [← hcold, List.getLast?_append, hlast, Option.some_or] at hlast₀
  exact absurd hlast₀ (by decide)

end CacheLib.MM2Q
