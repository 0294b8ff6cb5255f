/-
The access container is a finite map from keys to nodes.

`Chained t m chains` relates the links to the map `m`: the chain of each bucket is the nodes that
the map has for the keys of the bucket, each of them once. The three things that the container does
with the links keep it: a node goes to the head of its bucket, takes the place of another one of its
key, or is left out.

Three things must not happen: `replaceIf` with two nodes of different keys, a handle maker that
throws for the null pointer, and an `insertOrReplace` of a node that another call has put in between
the test and the lock.
-/
import CacheLib.Allocator.AccessContainer
import CacheLib.Allocator.ChainedHashTable
import CacheLib.Lib.Threads

set_option autoImplicit false

namespace CacheLib.AccessContainer

open Chain Function List Option Transition

variable {Key Node : Type} {cfg : Config Key Node}

/-! ## The map -/

section Map

variable [DecidableEq Key] [DecidableEq Node]

/-- What a call does to the map, and what it returns -/
def Op.apply (cfg : Config Key Node) (m : Key → Option Node) :
    Op Key Node → (Key → Option Node) × Result Node
  | .insert node =>
      if m (cfg.getKey node) = none then
        (update m (cfg.getKey node) (some node), .done true)
      else (m, .done false)
  | .insertOrReplace node throws =>
      if m (cfg.getKey node) = some node then (m, handleMaker throws none)
      else if throws then (m, .threw)
      else (update m (cfg.getKey node) (some node), .handle (m (cfg.getKey node)))
  | .replaceIf oldNode newNode predicate =>
      if m (cfg.getKey oldNode) = some oldNode ∧ predicate then
        (update m (cfg.getKey newNode) (some newNode), .done true)
      else (m, .done false)
  | .remove node =>
      if m (cfg.getKey node) = some node then
        (update m (cfg.getKey node) none, .done true)
      else (m, .done false)
  | .removeIf node predicate throws =>
      if m (cfg.getKey node) = some node ∧ predicate then
        if throws then (m, .threw)
        else (update m (cfg.getKey node) none, .handle (some node))
      else (m, handleMaker throws none)
  | .find key throws => (m, handleMaker throws (m key))

/-- The calls of a history, each with the result the map gives it, lead from the empty map to
`m`. -/
def Legal (cfg : Config Key Node) :
    List (Op Key Node × Result Node) → (Key → Option Node) → Prop
  | [], m => m = fun _ => none
  | (op, res) :: log, m => ∃ before, Legal cfg log before ∧ op.apply cfg before = (m, res)

/-- A call that throws leaves the map as it was. -/
theorem Op.apply_threw {op : Op Key Node} {m m' : Key → Option Node}
    (h : op.apply cfg m = (m', .threw)) : m' = m := by
  cases op with
  | find key throws => exact (congrArg Prod.fst h).symm
  | insert node | replaceIf oldNode newNode predicate | remove node =>
      rw [Op.apply] at h
      split at h <;> exact nomatch congrArg Prod.snd h
  | insertOrReplace node throws | removeIf node predicate throws =>
      rw [Op.apply] at h
      split_ifs at h with h1 h2
      all_goals first | exact (congrArg Prod.fst h).symm | exact nomatch congrArg Prod.snd h

end Map

/-! ## Links -/

section Links

variable {t : Impl cfg} {m : Key → Option Node} {chains : Fin cfg.numBuckets → List Node}
  {key : Key} {node old : Node}

structure Chained (t : Impl cfg) (m : Key → Option Node)
    (chains : Fin cfg.numBuckets → List Node) : Prop where
  path : ∀ b, Path t.hashNext (t.hashTable b) (chains b) none
  mem : ∀ b x, x ∈ chains b ↔ cfg.getBucket (cfg.getKey x) = b ∧ m (cfg.getKey x) = some x
  nodup : ∀ b, (chains b).Nodup
  keys : ∀ key x, m key = some x → cfg.getKey x = key

variable (h : Chained t m chains)

include h

theorem Chained.nodup_update (b : Fin cfg.numBuckets) {xs : List Node}
    (hxs : xs.Nodup) (b' : Fin cfg.numBuckets) : (update chains b xs b').Nodup := by
  by_cases hb : b' = b
  · rw [hb, update_self]
    exact hxs
  · rw [update_of_ne hb]
    exact h.nodup b'

variable [DecidableEq Key]

theorem Chained.find?_eq (key : Key) :
    (chains (cfg.getBucket key)).find? (fun x => cfg.getKey x = key) = m key := by
  cases hm : m key with
  | none =>
      rw [find?_eq_none]
      intro x hx hkey
      rw [decide_eq_true_eq] at hkey
      have hx' := ((h.mem _ x).mp hx).2
      rw [hkey, hm] at hx'
      exact nomatch hx'
  | some x =>
      have hkey := h.keys key x hm
      have hx : x ∈ chains (cfg.getBucket key) := (h.mem _ x).mpr (by rw [hkey]; exact ⟨rfl, hm⟩)
      cases hfind : (chains (cfg.getBucket key)).find? (fun x => cfg.getKey x = key) with
      | none =>
          rw [find?_eq_none] at hfind
          exact absurd (decide_eq_true hkey) (hfind x hx)
      | some y =>
          have hykey := find?_some hfind
          rw [decide_eq_true_eq] at hykey
          have hy := ((h.mem _ y).mp (mem_of_find?_eq_some hfind)).2
          rw [hykey, hm] at hy
          exact hy.symm

/-- The nodes of the bucket that come before the one with the key -/
def front (cfg : Config Key Node) (chains : Fin cfg.numBuckets → List Node) (key : Key) : List Node :=
  passed (fun x => cfg.getKey x = key) (chains (cfg.getBucket key))

/-- The chain around the node of a key -/
theorem Chained.split (hm : m key = some old) :
    ∃ back, chains (cfg.getBucket key) = front cfg chains key ++ old :: back := by
  obtain ⟨-, back, hsplit⟩ := find_split ((h.find?_eq key).trans hm)
  exact ⟨back, hsplit⟩

theorem Chained.around (hm : m key = some old) :
    ∃ back, Path t.hashNext (t.hashNext old) back none ∧ old ∉ front cfg chains key ++ back ∧
      (front cfg chains key ++ back).Nodup ∧ ∀ x, x ∈ front cfg chains key ++ back ↔
        cfg.getKey x ≠ key ∧ x ∈ chains (cfg.getBucket key) := by
  obtain ⟨back, hsplit⟩ := h.split hm
  have hpath := h.path (cfg.getBucket key)
  have hnodup := h.nodup (cfg.getBucket key)
  rw [hsplit] at hpath
  rw [hsplit, nodup_middle, nodup_cons] at hnodup
  obtain ⟨mid, -, -, hback⟩ := path_append.mp hpath
  refine ⟨back, hback, hnodup.1, hnodup.2, fun x => ⟨fun hx => ?_, ?_⟩⟩
  · have hmem : x ∈ chains (cfg.getBucket key) := by
      rw [hsplit]
      exact perm_middle.mem_iff.mpr (mem_cons_of_mem old hx)
    refine ⟨fun hkey => ?_, hmem⟩
    have hx' := ((h.mem _ x).mp hmem).2
    rw [hkey, hm] at hx'
    exact hnodup.1 (some.inj hx' ▸ hx)
  · rintro ⟨hkey, hmem⟩
    rw [hsplit] at hmem
    rcases mem_cons.mp (perm_middle.mem_iff.mp hmem) with rfl | hx
    · exact absurd (h.keys key x hm) hkey
    · exact hx

/-- Nodes of another bucket are not among them. -/
theorem Chained.not_mem_front {b : Fin cfg.numBuckets}
    (hb : b ≠ cfg.getBucket key) {x : Node} (hx : x ∈ chains b) : x ∉ front cfg chains key := by
  intro hmem
  have hbucket := ((h.mem _ x).mp ((takeWhile_sublist _).mem hmem)).1
  exact hb (((h.mem b x).mp hx).1.symm.trans hbucket)

theorem Chained.mem_update {v : Option Node} {xs : List Node}
    (hxs : ∀ x, x ∈ xs ↔ cfg.getKey x = key ∧ v = some x ∨
      cfg.getKey x ≠ key ∧ x ∈ chains (cfg.getBucket key)) (b : Fin cfg.numBuckets) (x : Node) :
    x ∈ update chains (cfg.getBucket key) xs b ↔
      cfg.getBucket (cfg.getKey x) = b ∧ update m key v (cfg.getKey x) = some x := by
  by_cases hb : b = cfg.getBucket key
  · subst hb
    rw [update_self, hxs]
    by_cases hkey : cfg.getKey x = key
    · simp [hkey]
    · rw [update_of_ne hkey, h.mem]
      simp [hkey]
  · rw [update_of_ne hb, h.mem]
    by_cases hkey : cfg.getKey x = key
    · simp [hkey, Ne.symm hb]
    · rw [update_of_ne hkey]

theorem Chained.keys_update {v : Option Node}
    (hv : ∀ x, v = some x → cfg.getKey x = key) (k : Key) (x : Node)
    (hx : update m key v k = some x) : cfg.getKey x = k := by
  by_cases hk : k = key
  · rw [hk, update_self] at hx
    rw [hk]
    exact hv x hx
  · rw [update_of_ne hk] at hx
    exact h.keys k x hx

variable [DecidableEq Node]

/-- A node that the map does not have goes to the head of its bucket. -/
theorem Chained.insertAtHead (hm : m (cfg.getKey node) = none) :
    ∃ chains', Chained (t.insertAtHead node (cfg.getBucket (cfg.getKey node)))
      (update m (cfg.getKey node) (some node)) chains' := by
  have hnew : ∀ b, node ∉ chains b := by
    intro b hmem
    exact nomatch hm.symm.trans ((h.mem b node).mp hmem).2
  have hlinks : ∀ b, Path (t.insertAtHead node (cfg.getBucket (cfg.getKey node))).hashNext
      (t.hashTable b) (chains b) none := by
    intro b
    refine (h.path b).congr fun x hx => update_of_ne ?_ _ _
    rintro rfl
    exact hnew b hx
  refine ⟨update chains (cfg.getBucket (cfg.getKey node))
    (node :: chains (cfg.getBucket (cfg.getKey node))), ?_, ?_, ?_, ?_⟩
  · intro b
    by_cases hb : b = cfg.getBucket (cfg.getKey node)
    · subst hb
      rw [update_self]
      refine ⟨update_self .., ?_⟩
      have hnext : (t.insertAtHead node (cfg.getBucket (cfg.getKey node))).hashNext node
          = t.hashTable (cfg.getBucket (cfg.getKey node)) := update_self ..
      rw [hnext]
      exact hlinks _
    · have hhead : (t.insertAtHead node (cfg.getBucket (cfg.getKey node))).hashTable b
          = t.hashTable b := update_of_ne hb _ _
      rw [update_of_ne hb, hhead]
      exact hlinks b
  · refine h.mem_update fun x => ?_
    rw [mem_cons, some.injEq]
    constructor
    · rintro (rfl | hx)
      · exact Or.inl ⟨rfl, rfl⟩
      · refine Or.inr ⟨fun hkey => ?_, hx⟩
        have hx' := ((h.mem _ x).mp hx).2
        rw [hkey, hm] at hx'
        exact nomatch hx'
    · rintro (⟨-, rfl⟩ | ⟨-, hx⟩)
      · exact Or.inl rfl
      · exact Or.inr hx
  · exact h.nodup_update _ (nodup_cons.mpr ⟨hnew _, h.nodup _⟩)
  · refine h.keys_update fun x hx => ?_
    rw [some.inj hx]

omit [DecidableEq Key] h in
theorem hashNext_setNextOf (t : Impl cfg) (prev : Option Node) (b : Fin cfg.numBuckets)
    (v : Option Node) : (t.setNextOf prev b v).hashNext = setLink t.hashNext prev v := by
  cases prev <;> rfl

omit [DecidableEq Key] h in
theorem hashNext_setNextOf_of_not_mem (t : Impl cfg) (b : Fin cfg.numBuckets) (v : Option Node)
    {xs : List Node} {x : Node} (hx : x ∉ xs) :
    (t.setNextOf xs.getLast? b v).hashNext x = t.hashNext x := by
  rw [hashNext_setNextOf]
  exact setLink_of_ne (fun hlast => hx (mem_of_getLast? hlast)) _ _

omit [DecidableEq Key] h in
theorem hashTable_setNextOf (t : Impl cfg) (prev : Option Node) (b : Fin cfg.numBuckets)
    (v : Option Node) : (t.setNextOf prev b v).hashTable
      = update t.hashTable b (setHead (t.hashTable b) prev v) := by
  cases prev with
  | none => rfl
  | some prev => exact (update_eq_self b t.hashTable).symm

/-- The nodes in front of the one with the key lead on to `rest`. -/
theorem Chained.path_update (hm : m key = some old) {t' : Impl cfg}
    {link : Option Node} {rest : List Node}
    (hheads : t'.hashTable = update t.hashTable (cfg.getBucket key)
      (setHead (t.hashTable (cfg.getBucket key)) (front cfg chains key).getLast? link))
    (hfront : ∀ x ∈ front cfg chains key,
      t'.hashNext x = setLink t.hashNext (front cfg chains key).getLast? link x)
    (hrest : Path t'.hashNext link rest none)
    (hother : ∀ b ≠ cfg.getBucket key, ∀ x ∈ chains b, t'.hashNext x = t.hashNext x)
    (b : Fin cfg.numBuckets) :
    Path t'.hashNext (t'.hashTable b)
      (update chains (cfg.getBucket key) (front cfg chains key ++ rest) b) none := by
  rw [hheads]
  by_cases hb : b = cfg.getBucket key
  · subst hb
    obtain ⟨back, hsplit⟩ := h.split hm
    have hpath := h.path (cfg.getBucket key)
    have hnodup := h.nodup (cfg.getBucket key)
    rw [hsplit] at hpath hnodup
    obtain ⟨mid, hfrontPath, -⟩ := path_append.mp hpath
    rw [update_self, update_self]
    exact path_append.mpr ⟨link, (hfrontPath.redirect hnodup.of_append_left link).congr hfront, hrest⟩
  · rw [update_of_ne hb, update_of_ne hb]
    exact (h.path b).congr (hother b hb)

variable [Fintype Node]

omit [DecidableEq Node] in
theorem Chained.search_eq (key : Key) :
    t.search key (cfg.getBucket key) = ((front cfg chains key).getLast?, m key) := by
  rw [Impl.search, walk_eq (h.path _) (h.nodup _).length_le_card, h.find?_eq, or_none, front]

omit [DecidableEq Node] in
theorem Chained.findInBucket_eq (key : Key) :
    t.findInBucket key (cfg.getBucket key) = m key := by
  rw [Impl.findInBucket, h.search_eq]

/-- A node takes the place of the one that the map has for its key. -/
theorem Chained.replace (hm : m (cfg.getKey node) = some old) :
    ∃ t' chains', t.insertOrReplaceInBucket node (cfg.getBucket (cfg.getKey node)) = (t', some old) ∧
      Chained t' (update m (cfg.getKey node) (some node)) chains' := by
  obtain ⟨back, hback, hold, hnodup, haround⟩ := h.around hm
  have hnode : node ∉ front cfg chains (cfg.getKey node) ++ back := fun hmem =>
    ((haround node).mp hmem).1 rfl
  rw [mem_append, not_or] at hnode
  rw [Impl.insertOrReplaceInBucket, h.search_eq, hm]
  refine ⟨_, update chains (cfg.getBucket (cfg.getKey node))
    (front cfg chains (cfg.getKey node) ++ node :: back), rfl, ?_, ?_, ?_, ?_⟩
  · -- Nodes other than the new one and those in front keep their links.
    have hkeep : ∀ x, x ∉ front cfg chains (cfg.getKey node) → _ = t.hashNext x := fun x hx =>
      hashNext_setNextOf_of_not_mem t (cfg.getBucket (cfg.getKey node)) (some node) hx
    refine h.path_update hm (hashTable_setNextOf ..) (fun x hx => ?_) ⟨rfl, ?_⟩ (fun b hb x hx => ?_)
    · rw [← hashNext_setNextOf t _ (cfg.getBucket (cfg.getKey node))]
      refine update_of_ne ?_ _ _
      rintro rfl
      exact hnode.1 hx
    · have hnext : ∀ t' : Impl cfg, ∀ next, (t'.setHashNext node next).hashNext node = next :=
        fun _ _ => update_self ..
      rw [hnext, hkeep old fun hmem => hold (mem_append_left back hmem)]
      refine hback.congr fun x hx => ?_
      rw [← hkeep x fun hmem => disjoint_of_nodup_append hnodup hmem hx]
      refine update_of_ne ?_ _ _
      rintro rfl
      exact hnode.2 hx
    · rw [← hkeep x (h.not_mem_front hb hx)]
      refine update_of_ne ?_ _ _
      rintro rfl
      exact hb ((h.mem b x).mp hx).1.symm
  · refine h.mem_update fun x => ?_
    rw [perm_middle.mem_iff, mem_cons, haround, some.injEq]
    constructor
    · rintro (rfl | hx)
      · exact Or.inl ⟨rfl, rfl⟩
      · exact Or.inr hx
    · rintro (⟨-, rfl⟩ | hx)
      · exact Or.inl rfl
      · exact Or.inr hx
  · refine h.nodup_update _ ?_
    rw [nodup_middle, nodup_cons, mem_append, not_or]
    exact ⟨hnode, hnodup⟩
  · refine h.keys_update fun x hx => ?_
    rw [some.inj hx]

/-- A node that the map has is left out. -/
theorem Chained.removeFromBucket (hm : m (cfg.getKey node) = some node) :
    ∃ chains', Chained (t.removeFromBucket node (cfg.getBucket (cfg.getKey node)))
      (update m (cfg.getKey node) none) chains' := by
  obtain ⟨back, hback, -, hnodup, haround⟩ := h.around hm
  rw [Impl.removeFromBucket, Impl.findPrevInBucket, h.search_eq]
  refine ⟨update chains (cfg.getBucket (cfg.getKey node))
    (front cfg chains (cfg.getKey node) ++ back), ?_, ?_, ?_, ?_⟩
  · refine h.path_update hm (hashTable_setNextOf ..) (fun x _ => ?_) (hback.congr fun x hx => ?_)
      (fun b hb x hx => hashNext_setNextOf_of_not_mem t _ _ (h.not_mem_front hb hx))
    · rw [hashNext_setNextOf]
    · refine hashNext_setNextOf_of_not_mem t _ _ fun hmem => ?_
      exact disjoint_of_nodup_append hnodup hmem hx
  · refine h.mem_update fun x => ?_
    rw [haround]
    exact ⟨Or.inr, fun hx => hx.resolve_left fun hx => nomatch hx.2⟩
  · exact h.nodup_update _ hnodup
  · exact h.keys_update nofun

/-- `insertOrReplaceInBucket`, whether the map has the key or not -/
theorem Chained.insertOrReplaceInBucket (node : Node) :
    ∃ t' chains', t.insertOrReplaceInBucket node (cfg.getBucket (cfg.getKey node))
        = (t', m (cfg.getKey node)) ∧
      Chained t' (update m (cfg.getKey node) (some node)) chains' := by
  cases hm : m (cfg.getKey node) with
  | none =>
      obtain ⟨chains', hchained⟩ := h.insertAtHead hm
      refine ⟨_, chains', ?_, hchained⟩
      rw [Impl.insertOrReplaceInBucket, h.search_eq, hm]
  | some old =>
      exact h.replace hm

end Links

/-! ## Calls -/

section Calls

variable [DecidableEq Key] [DecidableEq Node] [Fintype Node] {s s' : State cfg}
  {m m' : Key → Option Node} {node : Node} {op : Op Key Node} {label : Label Key Node}

/-- The links, the marks and the count are those of the map. -/
structure Represents (s : State cfg) (m : Key → Option Node) : Prop where
  chained : ∃ chains, Chained s.toImpl m chains
  accessible : ∀ x, s.accessible x = true ↔ m (cfg.getKey x) = some x
  numKeys : s.numKeys = ∑ x, (s.accessible x).toNat
  nullDereferenced : s.nullDereferenced = false

/-- A call has taken effect. -/
def Served (s s' : State cfg) (m : Key → Option Node) (op : Op Key Node) : Prop :=
  ∃ m' res, Represents s' m' ∧ op.apply cfg m = (m', res) ∧ s'.log = (op, res) :: s.log

section Represents

variable (h : Represents s m)

include h

omit [DecidableEq Key] in
theorem Represents.accessible_eq (x : Node) :
    s.accessible x = decide (m (cfg.getKey x) = some x) := by
  rw [Bool.eq_iff_iff, h.accessible, decide_eq_true_eq]

/-- A call that changes nothing -/
theorem Represents.unchanged {res : Result Node}
    (happly : op.apply cfg m = (m, res)) : Served s (s.record op res) m op :=
  ⟨m, res, ⟨h.chained, h.accessible, h.numKeys, h.nullDereferenced⟩, happly, rfl⟩

omit [DecidableEq Key] h in
theorem sum_decide_eq_some (o : Option Node) :
    ∑ x, (decide (o = some x)).toNat = o.isSome.toNat := by
  cases o with
  | none => simp
  | some y => simp [Bool.toNat, Bool.cond_decide]

theorem Represents.changed {key : Key} {v : Option Node} {t : Impl cfg}
    (hchained : ∃ chains, Chained t (update m key v) chains) {accessible : Node → Bool}
    (haccessible : ∀ x, accessible x
      = if v = some x then true else if m key = some x then false else s.accessible x)
    {numKeys : ℕ} (hnumKeys : numKeys = s.numKeys + v.isSome.toNat - (m key).isSome.toNat)
    {res : Result Node} (happly : op.apply cfg m = (update m key v, res)) :
    Served s (State.record { s with
      toImpl := t, accessible := accessible, numKeys := numKeys } op res) m op := by
  obtain ⟨chains, hlinks⟩ := h.chained
  have hnew : ∀ x, v = some x → cfg.getKey x = key := by
    obtain ⟨chains', hlinks'⟩ := hchained
    intro x hx
    exact hlinks'.keys key x ((update_self ..).trans hx)
  have hmark : ∀ x, accessible x
      = if cfg.getKey x = key then decide (v = some x) else s.accessible x := by
    intro x
    rw [haccessible, h.accessible_eq]
    by_cases hkey : cfg.getKey x = key
    · rw [hkey, if_pos rfl]
      grind
    · rw [if_neg fun e => hkey (hnew x e), if_neg fun e => hkey (hlinks.keys key x e), if_neg hkey]
  -- Node by node, what the marks gain is what the map gains.
  have hcount : ∑ x, (accessible x).toNat + (m key).isSome.toNat
      = ∑ x, (s.accessible x).toNat + v.isSome.toNat := by
    rw [← sum_decide_eq_some, ← sum_decide_eq_some v, ← Finset.sum_add_distrib,
      ← Finset.sum_add_distrib]
    refine Finset.sum_congr rfl fun x _ => ?_
    rw [hmark]
    split <;> rename_i hkey
    · rw [h.accessible_eq, hkey, Nat.add_comm]
    · rw [decide_eq_false fun e => hkey (hnew x e), decide_eq_false fun e => hkey (hlinks.keys key x e)]
  refine ⟨_, res, ⟨hchained, fun x => ?_, ?_, h.nullDereferenced⟩, happly, rfl⟩
  · change accessible x = true ↔ _
    rw [hmark]
    by_cases hkey : cfg.getKey x = key
    · rw [if_pos hkey, hkey, update_self, decide_eq_true_eq]
    · rw [if_neg hkey, update_of_ne hkey]
      exact h.accessible x
  · change numKeys = ∑ x, (accessible x).toNat
    rw [hnumKeys, h.numKeys]
    omega

theorem Represents.insert (node : Node) :
    Served s (s.insert node) m (.insert node) := by
  obtain ⟨chains, hchained⟩ := h.chained
  have hfind := hchained.findInBucket_eq (cfg.getKey node)
  rw [State.insert, Impl.insertInBucket, hfind]
  cases hm : m (cfg.getKey node) with
  | none =>
      refine h.changed (hchained.insertAtHead hm) ?_ (by rw [hm]; rfl) ?_
      · simp [hm, State.markAccessible, update_apply, eq_comm]
      · rw [Op.apply, if_pos hm]
  | some old =>
      refine h.unchanged ?_
      rw [Op.apply, if_neg (by rw [hm]; nofun)]

theorem Represents.insertOrReplace {throws : Bool}
    (hnot : s.accessible node = false) (hthrows : throws = true → m (cfg.getKey node) ≠ none) :
    Served s (s.insertOrReplace node throws) m (.insertOrReplace node throws) := by
  obtain ⟨chains, hchained⟩ := h.chained
  obtain ⟨t', chains', hreplace, hchained'⟩ := hchained.insertOrReplaceInBucket node
  have hne : m (cfg.getKey node) ≠ some node := by
    intro hm
    rw [(h.accessible node).mpr hm] at hnot
    exact nomatch hnot
  rw [State.insertOrReplace, hreplace]
  cases throws with
  | true =>
      cases hm : m (cfg.getKey node) with
      | none => exact absurd hm (hthrows rfl)
      | some old =>
          -- The second replacement takes the map back to what it was.
          have hkey := hchained.keys _ _ hm
          obtain ⟨t'', chains'', hback, hchained''⟩ := hchained'.insertOrReplaceInBucket old
          rw [hkey] at hback hchained''
          rw [update_idem, ← hm, update_eq_self] at hchained''
          refine ⟨m, .threw, ⟨⟨chains'', ?_⟩, h.accessible, h.numKeys, h.nullDereferenced⟩, ?_, rfl⟩
          · simp only [State.record, hback]
            exact hchained''
          · rw [Op.apply, if_neg hne, if_pos rfl]
  | false =>
      cases hm : m (cfg.getKey node) with
      | none =>
          refine h.changed ⟨chains', hchained'⟩ ?_ (by rw [hm]; rfl) ?_
          · simp [hm, State.markAccessible, update_apply, eq_comm]
          · rw [Op.apply, if_neg hne, hm]
            rfl
      | some old =>
          have hold : old ≠ node := by
            rintro rfl
            exact hne hm
          refine h.changed ⟨chains', hchained'⟩ ?_ (by rw [hm]; rfl) ?_
          · intro x
            simp only [hm, State.markAccessible, update_apply, some.injEq]
            grind
          · rw [Op.apply, if_neg hne, hm]
            rfl

theorem Represents.replaceIf {oldNode newNode : Node} (predicate : Bool)
    (hkey : cfg.getKey oldNode = cfg.getKey newNode) :
    Served s (s.replaceIf oldNode newNode predicate) m (.replaceIf oldNode newNode predicate) := by
  obtain ⟨chains, hchained⟩ := h.chained
  obtain ⟨t', chains', hreplace, hchained'⟩ := hchained.insertOrReplaceInBucket newNode
  rw [State.replaceIf, hreplace]
  split <;> rename_i hcond
  · rw [Bool.and_eq_true, h.accessible, hkey] at hcond
    refine h.changed ⟨chains', hchained'⟩ ?_ (by rw [hcond.1]; rfl) ?_
    · simp [hcond.1, State.unmarkAccessible, update_apply, eq_comm]
    · rw [Op.apply, hkey, if_pos hcond]
  · rw [Bool.and_eq_true, h.accessible] at hcond
    refine h.unchanged ?_
    rw [Op.apply, if_neg hcond]

theorem Represents.remove (node : Node) :
    Served s (s.remove node) m (.remove node) := by
  obtain ⟨chains, hchained⟩ := h.chained
  rw [State.remove]
  split <;> rename_i hmark
  · have hm := (h.accessible node).mp hmark
    refine h.changed (hchained.removeFromBucket hm) ?_ (by rw [hm]; rfl) ?_
    · simp [hm, State.unmarkAccessible, update_apply, eq_comm]
    · rw [Op.apply, if_pos hm]
  · rw [h.accessible] at hmark
    refine h.unchanged ?_
    rw [Op.apply, if_neg hmark]

theorem Represents.removeIf (node : Node) (predicate throws : Bool) :
    Served s (s.removeIf node predicate throws) m (.removeIf node predicate throws) := by
  obtain ⟨chains, hchained⟩ := h.chained
  rw [State.removeIf]
  split <;> rename_i hcond <;> rw [Bool.and_eq_true, h.accessible] at hcond
  · cases throws with
    | true =>
        refine h.unchanged ?_
        rw [Op.apply, if_pos hcond, if_pos rfl]
    | false =>
        refine h.changed (hchained.removeFromBucket hcond.1) ?_ (by rw [hcond.1]; rfl) ?_
        · simp [hcond.1, State.unmarkAccessible, update_apply, eq_comm]
        · rw [Op.apply, if_pos hcond]
          rfl
  · refine h.unchanged ?_
    rw [Op.apply, if_neg hcond]

theorem Represents.find (key : Key) (throws : Bool) :
    Served s (s.find key throws) m (.find key throws) := by
  obtain ⟨chains, hchained⟩ := h.chained
  rw [State.find, hchained.findInBucket_eq]
  exact h.unchanged rfl

/-- `replaceIf` is given two nodes of one key. When an `insertOrReplace` has the lock, its node is
not accessible, and its handle maker does not throw for the null pointer. -/
def proper (s : State cfg) : Label Key Node → Bool
  | .replaceIf oldNode newNode _ => decide (cfg.getKey oldNode = cfg.getKey newNode)
  | .locked i throws =>
      match s.tested[i]? with
      | some (.insertOrReplace node) =>
          !s.accessible node &&
            (!throws || (s.findInBucket (cfg.getKey node) (cfg.getBucket (cfg.getKey node))).isSome)
      | _ => true
  | _ => true

/-- A step is the test of a call, or a call takes effect. -/
theorem Represents.step (hproper : proper s label = true)
    (hstep : step cfg s label = some s') :
    Represents s' m ∧ s'.log = s.log ∨ ∃ op, Served s s' m op := by
  cases label with
  | insert node =>
      rw [AccessContainer.step] at hstep
      split at hstep <;> rename_i hmark <;> obtain rfl := some.inj hstep
      · refine Or.inr ⟨_, h.unchanged ?_⟩
        rw [Op.apply, if_neg (by rw [(h.accessible node).mp hmark]; nofun)]
      · exact Or.inl ⟨⟨h.chained, h.accessible, h.numKeys, h.nullDereferenced⟩, rfl⟩
  | insertOrReplace node throws =>
      rw [AccessContainer.step] at hstep
      split at hstep <;> rename_i hmark <;> obtain rfl := some.inj hstep
      · refine Or.inr ⟨_, h.unchanged ?_⟩
        rw [Op.apply, if_pos ((h.accessible node).mp hmark)]
      · exact Or.inl ⟨⟨h.chained, h.accessible, h.numKeys, h.nullDereferenced⟩, rfl⟩
  | locked i throws =>
      obtain ⟨call, hcall, rfl⟩ := map_eq_some_iff.mp hstep
      have hserved : ∃ op, Served s (s.locked throws call) m op := by
        cases call with
        | insert node => exact ⟨_, h.insert node⟩
        | insertOrReplace node =>
            rw [proper, hcall, Bool.and_eq_true, Bool.or_eq_true, Bool.not_eq_true',
              Bool.not_eq_true'] at hproper
            refine ⟨_, h.insertOrReplace hproper.1 fun hthrows hnone => ?_⟩
            obtain ⟨chains, hchained⟩ := h.chained
            rw [hchained.findInBucket_eq, hnone, hthrows] at hproper
            exact nomatch hproper.2
      obtain ⟨op, m', res, hrep, happly, hlog⟩ := hserved
      exact Or.inr ⟨op, m', res, ⟨hrep.chained, hrep.accessible, hrep.numKeys,
        hrep.nullDereferenced⟩, happly, hlog⟩
  | replaceIf oldNode newNode predicate =>
      obtain rfl := some.inj hstep
      exact Or.inr ⟨_, h.replaceIf predicate (of_decide_eq_true hproper)⟩
  | remove node =>
      obtain rfl := some.inj hstep
      exact Or.inr ⟨_, h.remove node⟩
  | removeIf node predicate throws =>
      obtain rfl := some.inj hstep
      exact Or.inr ⟨_, h.removeIf node predicate throws⟩
  | find key throws =>
      obtain rfl := some.inj hstep
      exact Or.inr ⟨_, h.find key throws⟩

theorem Represents.threw (hproper : proper s label = true)
    (hstep : AccessContainer.step cfg s label = some s') (hthrew : s'.log = (op, .threw) :: s.log) :
    (∀ key, s'.findInBucket key (cfg.getBucket key) = s.findInBucket key (cfg.getBucket key)) ∧
      s'.accessible = s.accessible ∧ s'.numKeys = s.numKeys := by
  rcases h.step hproper hstep with ⟨-, hlog⟩ | ⟨op', m', res, h', happly, hlog⟩
  · exact absurd (hlog.symm.trans hthrew) (cons_ne_self _ _).symm
  · rw [hthrew, cons.injEq, Prod.mk.injEq] at hlog
    obtain ⟨⟨rfl, rfl⟩, -⟩ := hlog
    obtain rfl := Op.apply_threw happly
    obtain ⟨chains, hchained⟩ := h.chained
    obtain ⟨chains', hchained'⟩ := h'.chained
    have haccessible : s'.accessible = s.accessible := by
      funext x
      rw [h.accessible_eq, h'.accessible_eq]
    refine ⟨fun key => ?_, haccessible, ?_⟩
    · exact (hchained'.findInBucket_eq key).trans (hchained.findInBucket_eq key).symm
    · rw [h.numKeys, h'.numKeys, haccessible]

end Represents

omit [DecidableEq Key] [DecidableEq Node] in
theorem represents_new : Represents (State.new : State cfg) fun _ => none where
  chained := ⟨fun _ => [], fun _ => rfl, by simp, fun _ => nodup_nil, nofun⟩
  accessible := by simp [State.new]
  numKeys := by simp [State.new]
  nullDereferenced := rfl

theorem represents_of_exec {labels : List (Label Key Node)}
    (hrun : exec (AccessContainer.step cfg) .new labels = some s)
    (hproper : Along (AccessContainer.step cfg) (fun s label => proper s label) .new labels) :
    ∃ m, Represents s m ∧ Legal cfg s.log m := by
  have hkeep : ∀ (s : State cfg) label t, (∃ m, Represents s m ∧ Legal cfg s.log m) →
      proper s label = true → AccessContainer.step cfg s label = some t →
      ∃ m, Represents t m ∧ Legal cfg t.log m := by
    rintro s label t ⟨m, hrep, hlegal⟩ hproper hstep
    rcases hrep.step hproper hstep with ⟨hrep', hlog⟩ | ⟨op, m', res, hrep', happly, hlog⟩
    · exact ⟨m, hrep', hlog ▸ hlegal⟩
    · refine ⟨m', hrep', ?_⟩
      rw [hlog]
      exact ⟨m, hlegal, happly⟩
  exact exec_invariant_along hkeep hrun hproper ⟨_, represents_new, rfl⟩

/-- The node is in the chain of the bucket. -/
def Linked (t : Impl cfg) (b : Fin cfg.numBuckets) (x : Node) : Prop :=
  ∃ xs, Path t.hashNext (t.hashTable b) xs none ∧ x ∈ xs

/-- The container is the map `m`: the calls so far have made it, and each has returned what it
should; lookups find the nodes of the map, these are what is linked, and the marks and the count say
so. -/
structure Refines (s : State cfg) (m : Key → Option Node) : Prop where
  legal : Legal cfg s.log m
  find : ∀ key, s.findInBucket key (cfg.getBucket key) = m key
  linked : ∀ b x, Linked s.toImpl b x ↔ cfg.getBucket (cfg.getKey x) = b ∧ m (cfg.getKey x) = some x
  accessible : ∀ x, s.accessible x = true ↔
    ∀ b, Linked s.toImpl b x ↔ b = cfg.getBucket (cfg.getKey x)
  numKeys : s.numKeys = Set.ncard { x | ∃ b, Linked s.toImpl b x }
  nullDereferenced : s.nullDereferenced = false

theorem Represents.refines (h : Represents s m) (hlegal : Legal cfg s.log m) : Refines s m := by
  obtain ⟨chains, hchained⟩ := h.chained
  have hlinked : ∀ b x, Linked s.toImpl b x ↔
      cfg.getBucket (cfg.getKey x) = b ∧ m (cfg.getKey x) = some x := by
    intro b x
    rw [← hchained.mem]
    constructor
    · rintro ⟨xs, hpath, hx⟩
      rwa [(hchained.path b).unique hpath]
    · exact fun hx => ⟨chains b, hchained.path b, hx⟩
  constructor
  · exact hlegal
  · exact hchained.findInBucket_eq
  · exact hlinked
  · intro x
    rw [h.accessible]
    constructor
    · intro hm b
      rw [hlinked, eq_comm]
      exact and_iff_left hm
    · intro hall
      exact ((hlinked _ x).mp ((hall _).mpr rfl)).2
  · rw [h.numKeys, Threads.sum_toNat]
    congr 1
    ext x
    simp only [Set.mem_ofPred_eq, h.accessible, hlinked]
    exact ⟨fun hm => ⟨_, rfl, hm⟩, fun ⟨_, _, hm⟩ => hm⟩
  · exact h.nullDereferenced

/-- In every run whose steps are proper, the container is a map that its calls have made, and a call
that throws leaves it as it is. -/
theorem refines_of_exec {labels : List (Label Key Node)}
    (hrun : exec (AccessContainer.step cfg) .new labels = some s)
    (hproper : Along (AccessContainer.step cfg) (fun s label => proper s label) .new labels) :
    (∃ m, Refines s m) ∧
      ∀ label op s', proper s label = true → AccessContainer.step cfg s label = some s' →
        s'.log = (op, .threw) :: s.log →
        (∀ key, s'.findInBucket key (cfg.getBucket key) = s.findInBucket key (cfg.getBucket key)) ∧
          s'.accessible = s.accessible ∧ s'.numKeys = s.numKeys := by
  obtain ⟨m, hrep, hlegal⟩ := represents_of_exec hrun hproper
  exact ⟨⟨m, hrep.refines hlegal⟩, fun label op s' hproper' hstep hthrew =>
    hrep.threw hproper' hstep hthrew⟩

/-- **The links are a table of lists** in all these runs: they lead along the chains of the table,
and a lookup finds the same node. -/
theorem container_of_exec {labels : List (Label Key Node)}
    (hrun : exec (AccessContainer.step cfg) .new labels = some s)
    (hproper : Along (AccessContainer.step cfg) (fun s label => proper s label) .new labels) :
    ∃ c : ChainedHashTable.Container Node cfg.getBucket,
      (∀ b, Path s.hashNext (s.hashTable b) ((c.chain b).map Prod.snd) none) ∧
      ∀ key, s.findInBucket key (cfg.getBucket key)
        = ChainedHashTable.findInBucket key (c.chain (cfg.getBucket key)) := by
  obtain ⟨m, hrep, -⟩ := represents_of_exec hrun hproper
  obtain ⟨chains, h⟩ := hrep.chained
  refine ⟨⟨fun b => (chains b).map fun x => (cfg.getKey x, x), fun b key hkey => ?_, fun b => ?_⟩,
    fun b => ?_, fun key => ?_⟩
  · rw [List.map_map] at hkey
    obtain ⟨x, hx, rfl⟩ := mem_map.mp hkey
    exact ((h.mem b x).mp hx).1
  · -- The map has one node for a key.
    rw [List.map_map]
    refine (h.nodup b).map_on fun x hx y hy (hkey : cfg.getKey x = cfg.getKey y) => ?_
    have hm := ((h.mem b x).mp hx).2
    rw [hkey, ((h.mem b y).mp hy).2] at hm
    exact (some.inj hm).symm
  · rw [List.map_map]
    exact (List.map_id _).symm ▸ h.path b
  · rw [h.findInBucket_eq, ← h.find?_eq]
    dsimp only
    induction chains (cfg.getBucket key) with
    | nil => rfl
    | cons x xs ih =>
        rw [map_cons, ChainedHashTable.findInBucket, find?_cons]
        by_cases hx : cfg.getKey x = key
        · simp [hx]
        · rw [if_neg hx, decide_eq_false hx]
          exact ih

end Calls

theorem neZero_one : NeZero 1 := ⟨Nat.one_ne_zero⟩

theorem neZero_four : NeZero 4 := ⟨Nat.succ_ne_zero 3⟩

attribute [local instance] neZero_one neZero_four

/-- Four nodes, two for each of two keys, in one bucket -/
def oneBucket : Config (Fin 2) (Fin 4) where
  numBuckets := 1
  getBucket _ := 0
  getKey node := ⟨node / 2, by omega⟩

def inBucket (s : State oneBucket) (key : Fin 2) : Option (Fin 4) :=
  s.findInBucket key (oneBucket.getBucket key)

/-- Node 0 and node 2 are put in; node 1 is to replace node 0, but the handle maker throws; then it
does, and node 2 is taken out. -/
def replaces : List (Label (Fin 2) (Fin 4)) :=
  [.insert 0, .locked 0 false, .insertOrReplace 2 false, .locked 0 false, .insertOrReplace 1 false,
    .locked 0 true, .replaceIf 0 1 true, .removeIf 2 true true, .remove 2]

theorem refines_of_exec_replaces :
    ∃ s, exec (step oneBucket) .new replaces = some s ∧
      (inBucket s 0, inBucket s 1, s.accessible 0, s.accessible 1, s.numKeys)
        = (some 1, none, false, true, 1) ∧ ∃ m, Refines s m := by
  obtain ⟨s, hs, hfacts⟩ : ∃ s, exec (step oneBucket) .new replaces = some s ∧
      (inBucket s 0, inBucket s 1, s.accessible 0, s.accessible 1, s.numKeys)
        = (some 1, none, false, true, 1) := by
    decide +kernel
  exact ⟨s, hs, hfacts, (refines_of_exec hs (by decide +kernel)).1⟩

/-- Node 2 is to replace node 0, which has another key. -/
def otherKey : List (Label (Fin 2) (Fin 4)) :=
  [.insert 0, .locked 0 false, .replaceIf 0 2 true]

/-- Two calls have found that node 0 is not accessible. -/
def insertsTwice : List (Label (Fin 2) (Fin 4)) :=
  [.insertOrReplace 0 false, .insertOrReplace 0 false, .locked 0 false, .locked 0 false]

/-- The handle maker throws for the null pointer. -/
def throwsForNull : List (Label (Fin 2) (Fin 4)) :=
  [.insertOrReplace 0 true, .locked 0 true]

/-- What is linked and what is marked come apart: node 0 is found, and is not marked as
accessible. -/
theorem linked_unmarked :
    (exec (step oneBucket) .new otherKey).map
        (fun s => (inBucket s 0, inBucket s 1, s.accessible 0, s.numKeys))
      = some (some 0, some 2, false, 1) ∧
    (exec (step oneBucket) .new insertsTwice).map
        (fun s => (inBucket s 0, s.accessible 0, s.numKeys)) = some (some 0, false, 1) ∧
    (exec (step oneBucket) .new throwsForNull).map
        (fun s => (inBucket s 0, s.accessible 0, s.numKeys, s.nullDereferenced))
      = some (some 0, false, 0, true) := by
  refine ⟨?_, ?_, ?_⟩ <;> decide +kernel

end CacheLib.AccessContainer
