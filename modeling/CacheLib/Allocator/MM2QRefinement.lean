/-
`MM2Q` without its tails.

What the container is for is said by `Lru`: three lists of nodes, the hot, the warm and the
cold ones, and what `recordAccess` reads of them. It has no flags, no links and no tails;
a node is where the lists have it. Every operation of the container is one of this machine,
and the size of the tails is not among the things that it reads.

The tails only cut the warm and the cold list in two (`joined`). `adjustTail` moves the
place of the cut and nothing else, so it does not show here; and the two loops of
`rebalance` are `take` and `drop`.
-/
import CacheLib.Allocator.MM2QQueues

set_option autoImplicit false

namespace CacheLib.MM2Q

open Transition LinkedList Function List

/-! ## The machine without tails -/

inductive Temp
  | warm
  | hot
  | cold
  deriving DecidableEq, Repr

/-- The list that a queue is a part of -/
def LruType.temp : LruType → Temp
  | .warm => .warm
  | .warmTail => .warm
  | .hot => .hot
  | .cold => .cold
  | .coldTail => .cold

/-- The queue at the head of a list -/
def Temp.front : Temp → LruType
  | .warm => .warm
  | .hot => .hot
  | .cold => .cold

def Node.temp (n : Node) : Temp := if n.hot then .hot else if n.cold then .cold else .warm

structure Lru (α : Type*) where
  queue : Temp → List α := fun _ => []
  updateTime : α → UInt32 := fun _ => 0
  /-- where a node that is not in a list has been -/
  left : α → Temp := fun _ => .warm
  lruRefreshTime : UInt32
  nextReconfigureTime : UInt32

namespace Lru

variable {α : Type*} [DecidableEq α] (cfg : Config) (a : Lru α)

def init (time : UInt32) : Lru α where
  lruRefreshTime := cfg.lruRefreshTime
  nextReconfigureTime :=
    if cfg.mmReconfigureIntervalSecs = 0 then 2 ^ 32 - 1 else time + cfg.mmReconfigureIntervalSecs

def size : ℕ := (a.queue .warm).length + (a.queue .hot).length + (a.queue .cold).length

/-- The nodes in the order in which they are evicted -/
def evictionOrder : List α :=
  (a.queue .cold).reverse ++ (a.queue .hot).reverse ++ (a.queue .warm).reverse

/-- The list of a node -/
def temp (x : α) : Temp :=
  if x ∈ a.queue .hot then .hot else if x ∈ a.queue .cold then .cold else .warm

def push (x : α) : Lru α := { a with queue := update a.queue .hot (x :: a.queue .hot) }

def move (t t' : Temp) (x : α) : Lru α :=
  let queue := update a.queue t ((a.queue t).erase x)
  { a with queue := update queue t' (x :: queue t') }

def touch (x : α) (time : UInt32) : Lru α :=
  { a with updateTime := update a.updateTime x time }

def leave (x : α) : Lru α :=
  { a with
    queue := update a.queue (a.temp x) ((a.queue (a.temp x)).erase x)
    left := update a.left x (a.temp x) }

/-- All but the first `n` nodes of a list become cold. -/
def shrink (t : Temp) (n : ℕ) : Lru α :=
  { a with
    queue := update
      (update a.queue .cold ((a.queue t).drop n ++ a.queue .cold)) t ((a.queue t).take n) }

def rebalance : Lru α :=
  let a := a.shrink .warm (cfg.getWarmSizePercent * UInt64.ofNat a.size / 100).toNat
  a.shrink .hot (cfg.hotSizePercent * UInt64.ofNat a.size / 100).toNat

def add (x : α) (currTime : UInt32) : Lru α :=
  if x ∈ a.evictionOrder then a else ((a.push x).rebalance cfg).touch x currTime

def remove (x : α) : Lru α := if x ∈ a.evictionOrder then (a.leave x).rebalance cfg else a

/-- `y` takes the place of `x`. -/
def swap (x y : α) : Lru α :=
  { a with
    queue := update a.queue (a.temp x) (MultiDList.swap x y (a.queue (a.temp x)))
    left := update a.left x (a.temp x) }

def replace (x y : α) : Lru α :=
  if x ∈ a.evictionOrder ∧ y ∉ a.evictionOrder then (a.swap x y).touch y (a.updateTime x) else a

def getOldestWarmAge (now : UInt32) : UInt32 :=
  match (a.queue .warm).getLast? with
  | none => 0
  | some x => now - a.updateTime x

def reconfigure (access : Access) : Lru α :=
  if access.curr < a.nextReconfigureTime then a
  else
    let age := cfg.timesLruRefreshRatio (a.getOldestWarmAge access.now)
    { a with
      nextReconfigureTime := access.curr + cfg.mmReconfigureIntervalSecs
      lruRefreshTime := min (max cfg.defaultLruRefreshTime age) kLruRefreshTimeCap }

def promote (x : α) : Lru α :=
  match a.temp x with
  | .hot => a.move .hot .hot x
  | .warm => a.move .warm .warm x
  | .cold =>
      let a := a.move .cold .warm x
      if cfg.rebalanceOnRecordAccess then a.rebalance cfg else a

def recordAccess (x : α) (access : Access) : Lru α :=
  if (access.mode = .write ∧ !cfg.updateOnWrite) ∨ (access.mode = .read ∧ !cfg.updateOnRead) then a
  else if ¬ (x ∈ a.evictionOrder ∧ a.updateTime x + a.lruRefreshTime ≤ access.curr) then a
  else if cfg.tryLockUpdate && !access.free then a
  else ((a.reconfigure cfg access).promote cfg x).touch x access.curr

/-- A move of the eviction iterator, which has the nodes of the list before it -/
def evict (r : Lru α × List α) : Move → Option (Lru α × List α)
  | .next => some (r.1, r.2.tail)
  | .remove => r.2.head?.map fun x => (r.1.leave x, r.2.tail)
  | .resetToBegin => some (r.1, r.1.evictionOrder)

def step : Op α → Option (Lru α)
  | .add x currTime => some (a.add cfg x currTime)
  | .remove x => some (a.remove cfg x)
  | .replace x y => some (a.replace x y)
  | .recordAccess x access => some (a.recordAccess cfg x access)
  | .withEvictionIterator moves => (exec evict (a, a.evictionOrder) moves).map Prod.fst

/-- The machine does not read the size of the tails. -/
theorem step_tailSize (n : UInt64) : step { cfg with tailSize := n } a = step cfg a := rfl

variable {a} {t : Temp} {x : α}

omit [DecidableEq α] in
theorem mem_evictionOrder : x ∈ a.evictionOrder ↔ ∃ t, x ∈ a.queue t := by
  simp only [evictionOrder, mem_append, mem_reverse]
  constructor
  · rintro ((h | h) | h)
    · exact ⟨_, h⟩
    · exact ⟨_, h⟩
    · exact ⟨_, h⟩
  · rintro ⟨t, h⟩
    cases t with
    | warm => exact Or.inr h
    | hot => exact Or.inl (Or.inr h)
    | cold => exact Or.inl (Or.inl h)

theorem touch_self (x : α) : a.touch x (a.updateTime x) = a := by
  rw [touch, update_eq_self]

theorem touch_updateTime_self {time : UInt32} : (a.touch x time).updateTime x = time :=
  update_self ..

theorem touch_updateTime_of_ne {y : α} {time : UInt32} (h : y ≠ x) :
    (a.touch x time).updateTime y = a.updateTime y := update_of_ne h ..

omit [DecidableEq α] in
theorem shrink_queue_self (t : Temp) (n : ℕ) : (a.shrink t n).queue t = (a.queue t).take n :=
  update_self ..

omit [DecidableEq α] in
/-- A list that is short enough stays as it is. -/
theorem shrink_of_length_le {n : ℕ} (h : (a.queue t).length ≤ n) : a.shrink t n = a := by
  rw [shrink, drop_of_length_le h, take_of_length_le h, nil_append,
    update_eq_self, update_eq_self]

/-- **A list is made shorter node by node.** -/
theorem move_shrink (ht : t ≠ .cold) (hnodup : (a.queue t).Nodup) {k : ℕ}
    (hx : (a.queue t)[k]? = some x) : (a.shrink t (k + 1)).move t .cold x = a.shrink t k := by
  obtain ⟨hk, rfl⟩ := List.getElem?_eq_some_iff.mp hx
  have htake : ((a.queue t).take (k + 1)).erase (a.queue t)[k] = (a.queue t).take k := by
    have hnot : (a.queue t)[k] ∉ (a.queue t).take k := by
      rw [← take_append_drop k (a.queue t), drop_eq_getElem_cons hk] at hnodup
      exact fun hmem => (nodup_middle.mp hnodup).notMem (mem_append_left _ hmem)
    rw [take_succ_eq_append_getElem hk, erase_append_right _ hnot]
    simp
  have hcold : Temp.cold ≠ t := ht.symm
  simp only [move, shrink, update_self, update_of_ne hcold, htake,
    drop_eq_getElem_cons hk, update_idem, cons_append]
  rw [update_comm hcold, update_idem, update_comm hcold]

end Lru

/-! ## The lists of a container -/

variable {α : Type*} {cfg : Config} {s s' : State α} {q : LruType → List α} {t t' : LruType}
  {x y : α} {M K : Set α} {a : Lru α}

/-- Each list with its tail -/
def joined (q : LruType → List α) : Temp → List α
  | .warm => q .warm ++ q .warmTail
  | .hot => q .hot
  | .cold => q .cold ++ q .coldTail

theorem mem_joined {τ : Temp} : x ∈ joined q τ ↔ ∃ t, t.temp = τ ∧ x ∈ q t := by
  constructor
  · intro h
    cases τ with
    | warm => exact (mem_append.mp h).elim (⟨_, rfl, ·⟩) (⟨_, rfl, ·⟩)
    | hot => exact ⟨_, rfl, h⟩
    | cold => exact (mem_append.mp h).elim (⟨_, rfl, ·⟩) (⟨_, rfl, ·⟩)
  · rintro ⟨t, rfl, h⟩
    cases t with
    | warm => exact mem_append_left _ h
    | warmTail => exact mem_append_right _ h
    | hot => exact h
    | cold => exact mem_append_left _ h
    | coldTail => exact mem_append_right _ h

theorem Denotes.temp {n : Node} (h : Denotes cfg t n) : n.temp = t.temp := by
  cases t with
  | hot => rw [Node.temp, h.1, if_pos rfl, LruType.temp]
  | cold => simp [Node.temp, LruType.temp, h.1, h.2.1]
  | coldTail => simp [Node.temp, LruType.temp, h.1, h.2.1]
  | warm => simp [Node.temp, LruType.temp, h.1, h.2.1]
  | warmTail => simp [Node.temp, LruType.temp, h.1, h.2.1]

theorem joined_push (q : LruType → List α) (τ : Temp) (x : α) :
    joined (update q τ.front (x :: q τ.front)) =
      update (joined q) τ (x :: joined q τ) := by
  funext σ
  cases τ <;> cases σ <;> rfl

theorem joined_update {f : List α → List α}
    (hleft : ∀ xs ys, x ∈ xs → x ∉ ys → f (xs ++ ys) = f xs ++ ys)
    (hright : ∀ xs ys, x ∉ xs → f (xs ++ ys) = xs ++ f ys) (hx : x ∈ q t)
    (hapart : ∀ u, x ∈ q u → u = t) :
    joined (update q t (f (q t))) =
      update (joined q) t.temp (f (joined q t.temp)) := by
  have hnot : ∀ u, u ≠ t → x ∉ q u := fun u hu hmem => hu (hapart u hmem)
  funext σ
  cases t with
  | warm =>
      cases σ <;> try rfl
      exact (hleft _ _ hx (hnot .warmTail nofun)).symm
  | warmTail =>
      cases σ <;> try rfl
      exact (hright _ _ (hnot .warm nofun)).symm
  | hot => cases σ <;> rfl
  | cold =>
      cases σ <;> try rfl
      exact (hleft _ _ hx (hnot .coldTail nofun)).symm
  | coldTail =>
      cases σ <;> try rfl
      exact (hright _ _ (hnot .cold nofun)).symm

variable [DecidableEq α]

theorem joined_erase (h : Queues cfg M K s q) (hx : x ∈ q t) :
    joined (update q t ((q t).erase x)) =
      update (joined q) t.temp ((joined q t.temp).erase x) :=
  joined_update (f := (·.erase x)) (fun _ ys hmem _ => erase_append_left ys hmem)
    (fun _ ys hnot => erase_append_right ys hnot) hx (fun _ hu => h.holds.apart hu hx)

theorem joined_swap (h : Queues cfg M K s q) (hx : x ∈ q t) :
    joined (update q t (MultiDList.swap x y (q t))) =
      update (joined q) t.temp (MultiDList.swap x y (joined q t.temp)) := by
  refine joined_update (x := x) (fun xs ys _ hnot => ?_) (fun xs ys hnot => ?_) hx
    (fun _ hu => h.holds.apart hu hx)
  · rw [MultiDList.swap_append, MultiDList.swap_of_notMem hnot]
  · rw [MultiDList.swap_append, MultiDList.swap_of_notMem hnot]

theorem joined_moved (h : Queues cfg M K s q) (hx : x ∈ q t) (τ : Temp) :
    joined (moved q t τ.front x) = update
      (update (joined q) t.temp ((joined q t.temp).erase x)) τ
      (x :: update (joined q) t.temp ((joined q t.temp).erase x) τ) := by
  rw [moved, joined_push, joined_erase h hx]

theorem joined_moved_tail (h : Queues cfg M K s q) (ht : getTailLru t = some t')
    (hx : (q t).getLast? = some x) : joined (moved q t t' x) = joined q := by
  have hnodup := (h.holds.list t).nodup
  obtain ⟨ys, hys⟩ := getLast?_eq_some_iff.mp hx
  have herase : (q t).erase x = ys := by
    rw [hys] at hnodup ⊢
    have hnot : x ∉ ys := fun hmem => (nodup_append.mp hnodup).2.2 _ hmem _ (by simp) rfl
    rw [erase_append_right _ hnot]
    simp
  rw [moved, herase]
  funext σ
  cases t <;> simp only [getTailLru, reduceCtorEq, Option.some.injEq] at ht
  · subst ht
    cases σ <;> simp [joined, hys]
  · subst ht
    cases σ <;> simp [joined, hys]

/-! ## What a container shows -/

/-- `s` is `a` with flags, links and tails. -/
structure Shows (cfg : Config) (M K : Set α) (s : State α) (q : LruType → List α) (a : Lru α) : Prop
    extends Queues cfg M K s q where
  queue_eq : a.queue = joined q
  updateTime_eq : ∀ x, (s.node x).updateTime = a.updateTime x
  left_eq : ∀ x ∉ M, (s.node x).temp = a.left x
  lruRefreshTime_eq : s.lruRefreshTime = a.lruRefreshTime
  nextReconfigureTime_eq : s.nextReconfigureTime = a.nextReconfigureTime

/-- The same, for whichever queues. `M` are the nodes that are linked, `K` those that are marked. -/
def Shown (cfg : Config) (M K : Set α) (s : State α) (a : Lru α) : Prop := ∃ q, Shows cfg M K s q a

/-- What holds between calls -/
def Refines (cfg : Config) (s : State α) (a : Lru α) : Prop := ∃ M, Shown cfg M M s a

namespace Shows

variable (h : Shows cfg M K s q a)

include h

omit [DecidableEq α] in
theorem mem_iff : x ∈ M ↔ x ∈ a.evictionOrder := by
  rw [h.linked_iff, Lru.mem_evictionOrder, h.queue_eq]
  simp only [mem_joined]
  exact ⟨fun ⟨t, ht⟩ => ⟨_, t, rfl, ht⟩, fun ⟨_, t, _, ht⟩ => ⟨t, ht⟩⟩

theorem temp_eq (hx : x ∈ q t) : a.temp x = t.temp := by
  have hiff : ∀ τ, x ∈ a.queue τ ↔ t.temp = τ := by
    intro τ
    rw [h.queue_eq, mem_joined]
    constructor
    · rintro ⟨u, rfl, hu⟩
      rw [h.holds.apart hu hx]
    · exact fun hτ => ⟨t, hτ, hx⟩
  rw [Lru.temp]
  simp only [hiff]
  cases t.temp <;> rfl

omit [DecidableEq α] in
theorem length_eq (t : Temp) :
    (a.queue t).length = match t with
      | .warm => s.size .warm + s.size .warmTail
      | .hot => s.size .hot
      | .cold => s.size .cold + s.size .coldTail := by
  rw [h.queue_eq]
  cases t <;> simp only [joined, length_append, h.size_eq]

omit [DecidableEq α] in
theorem lruSize_eq : s.lruSize = a.size := by
  rw [Lru.size, h.length_eq, h.length_eq, h.length_eq, State.lruSize]
  dsimp only
  omega

omit [DecidableEq α] in
theorem nodup (t : Temp) : (a.queue t).Nodup := by
  have hlist : ∀ u, (q u).Nodup := fun u => (h.holds.list u).nodup
  have hapart : ∀ u u', u ≠ u' → ∀ x ∈ q u, ∀ y ∈ q u', x ≠ y := fun u u' hne x hx y hy heq =>
    hne (h.holds.apart hx (heq ▸ hy))
  rw [h.queue_eq]
  cases t with
  | warm => exact nodup_append.mpr ⟨hlist _, hlist _, hapart _ _ nofun⟩
  | hot => exact hlist _
  | cold => exact nodup_append.mpr ⟨hlist _, hlist _, hapart _ _ nofun⟩

/-- **A node moves to the head of a list**, and has the flags of that. -/
theorem shift (hx : x ∈ q t) {n : Node} (τ : Temp)
    (hdenotes : Denotes cfg τ.front n) (hmark : n.inMMContainer = (s.node x).inMMContainer)
    (htime : n.updateTime = (s.node x).updateTime) :
    Shows cfg M K (s.shift t τ.front x n) (moved q t τ.front x) (a.move t.temp τ x) := by
  refine ⟨h.toQueues.shift hx hdenotes hmark, ?_, fun y => ?_, fun y hy => ?_, h.lruRefreshTime_eq,
    h.nextReconfigureTime_eq⟩
  · rw [joined_moved h.toQueues hx, Lru.move, h.queue_eq]
  · by_cases hyx : y = x
    · rw [hyx, State.shift_node_self, htime]
      exact h.updateTime_eq x
    · rw [State.shift_node_of_ne hyx]
      exact h.updateTime_eq y
  · have hyx : y ≠ x := fun heq => hy (heq ▸ h.linked_iff.mpr ⟨t, hx⟩)
    rw [State.shift_node_of_ne hyx]
    exact h.left_eq y hy

theorem moveToHead (τ : Temp) (hx : x ∈ q τ.front) :
    Shows cfg M K (s.moveToHead τ.front x) (moved q τ.front τ.front x) (a.move τ τ x) := by
  refine ⟨h.toQueues.moveToHead hx, ?_, h.updateTime_eq, h.left_eq, h.lruRefreshTime_eq,
    h.nextReconfigureTime_eq⟩
  have hτ : τ.front.temp = τ := by cases τ <;> rfl
  rw [joined_moved h.toQueues hx, Lru.move, h.queue_eq, hτ]

/-- A round of `adjustTail` does not show. -/
theorem moveToTail (ht : getTailLru t = some t')
    (hx : (s.getList t).tail = some x) (hsize : s.size t' + 1 ≤ cfg.tailSize.toNat) :
    Shows cfg M K (s.shift t t' x (s.node x).markTail) (moved q t t' x) a := by
  have hmem := h.tail_mem hx
  have hflags := h.denotes hmem
  have htailSize : cfg.tailSize ≠ 0 := by
    intro hzero
    simp [hzero] at hsize
  have hdenotes : Denotes cfg t' (s.node x).markTail := by
    cases t <;> simp only [getTailLru, reduceCtorEq, Option.some.injEq] at ht
    · subst ht
      exact ⟨hflags.1, hflags.2.1, by simp [inTail, Node.markTail, htailSize]⟩
    · subst ht
      exact ⟨hflags.1, hflags.2.1, by simp [inTail, Node.markTail, htailSize]⟩
  refine ⟨h.toQueues.shift hmem hdenotes rfl, ?_, fun y => ?_, fun y hy => ?_, h.lruRefreshTime_eq,
    h.nextReconfigureTime_eq⟩
  · rw [joined_moved_tail h.toQueues ht ((h.tail_eq t).symm.trans hx)]
    exact h.queue_eq
  · rw [← h.updateTime_eq y]
    by_cases hyx : y = x
    · rw [hyx, State.shift_node_self]
      rfl
    · rw [State.shift_node_of_ne hyx]
  · have hyx : y ≠ x := fun heq => hy (heq ▸ h.linked_iff.mpr ⟨t, hmem⟩)
    rw [State.shift_node_of_ne hyx]
    exact h.left_eq y hy

/-- A round of the loop that shrinks `Warm` and `WarmTail` -/
theorem shrinkWarm (hx : (a.queue .warm).getLast? = some x) :
    ∃ s', shrinkWarm s = some s' ∧ Shown cfg M K s' (a.move .warm .cold x) := by
  rw [h.queue_eq, joined, getLast?_append] at hx
  have hsize := h.size_eq .warmTail
  by_cases htail : 0 < s.size .warmTail
  · have hne : q .warmTail ≠ [] := length_pos_iff.mp (hsize ▸ htail)
    have hlast : (s.getList .warmTail).tail = some x := by
      rw [h.tail_eq, ← hx, getLast?_eq_some_getLast hne, Option.some_or]
    have hflags := h.denotes (h.tail_mem hlast)
    refine ⟨s.shift .warmTail .cold x (s.node x).unmarkTail.markCold, ?_, _,
      h.shift (h.tail_mem hlast) .cold ⟨hflags.1, rfl, ?_⟩ rfl rfl⟩
    · simp [MM2Q.shrinkWarm, htail, hlast, State.shift, State.set, State.unlink, State.linkAtHead]
    · simp [inTail, Node.markCold, Node.unmarkTail]
  · have hnil : q .warmTail = [] := length_eq_zero_iff.mp (by omega)
    have hlast : (s.getList .warm).tail = some x := by
      rw [h.tail_eq, ← hx, hnil, getLast?_nil, Option.none_or]
    have hflags := h.denotes (h.tail_mem hlast)
    refine ⟨s.shift .warm .cold x (s.node x).markCold, ?_, _,
      h.shift (h.tail_mem hlast) .cold ⟨hflags.1, rfl, hflags.2.2⟩ rfl rfl⟩
    simp only [MM2Q.shrinkWarm, if_neg htail, hlast, Option.map_some, reduceCtorEq, or_self, if_false]
    rfl

/-- A round of the loop that shrinks `Hot` -/
theorem shrinkHot (hx : (a.queue .hot).getLast? = some x) :
    ∃ s', shrinkHot s = some s' ∧ Shown cfg M K s' (a.move .hot .cold x) := by
  rw [h.queue_eq] at hx
  have hlast : (s.getList .hot).tail = some x := (h.tail_eq _).trans hx
  have hflags := h.denotes (h.tail_mem hlast)
  refine ⟨s.shift .hot .cold x (s.node x).unmarkHot.markCold, ?_, _,
    h.shift (h.tail_mem hlast) .cold ⟨rfl, rfl, hflags.2⟩ rfl rfl⟩
  simp [MM2Q.shrinkHot, hlast, State.shift, State.set, State.unlink, State.linkAtHead]

end Shows

/-! ## Rebalancing -/

namespace Shown

/-- The two loops of `rebalance` that make a list shorter -/
theorem shrink {τ : Temp} (hτ : τ ≠ .cold) {size : State α → ℕ} {body : State α → Option (State α)}
    (hsize : ∀ {s a}, Shown cfg M K s a → size s = (a.queue τ).length)
    (hbody : ∀ {s a x}, Shown cfg M K s a → (a.queue τ).getLast? = some x →
      ∃ s', body s = some s' ∧ Shown cfg M K s' (a.move τ .cold x))
    (h : Shown cfg M K s a) (n : ℕ) :
    ∃ s', loop (fun s => n < size s) body (size s) s = some s' ∧
      Shown cfg M K s' (a.shrink τ n) := by
  have hnodup : (a.queue τ).Nodup := let ⟨_, hq⟩ := h; hq.nodup τ
  -- the first `k` nodes are still there
  let Inv : State α → Prop := fun s =>
    ∃ k ≤ (a.queue τ).length, min n (a.queue τ).length ≤ k ∧ Shown cfg M K s (a.shrink τ k)
  have hk : ∀ {s k}, k ≤ (a.queue τ).length → Shown cfg M K s (a.shrink τ k) → size s = k := by
    intro s k hle hs
    rw [hsize hs, Lru.shrink_queue_self, length_take, Nat.min_eq_left hle]
  have hround : ∀ s, Inv s → decide (n < size s) = true →
      ∃ s', body s = some s' ∧ Inv s' ∧ size s' < size s := by
    rintro s ⟨k, hle, hmin, hs⟩ hguard
    rw [decide_eq_true_eq, hk hle hs] at hguard
    obtain ⟨k, rfl⟩ : ∃ k', k = k' + 1 := ⟨k - 1, by omega⟩
    have hget : (a.queue τ)[k]? = some (a.queue τ)[k] := getElem?_eq_getElem hle
    have hlast : ((a.shrink τ (k + 1)).queue τ).getLast? = some (a.queue τ)[k] := by
      rw [Lru.shrink_queue_self, take_succ_eq_append_getElem hle, getLast?_concat]
    obtain ⟨s', hs', hshown⟩ := hbody hs hlast
    rw [Lru.move_shrink hτ hnodup hget] at hshown
    refine ⟨s', hs', ⟨k, by omega, by omega, hshown⟩, ?_⟩
    rw [hk hle hs, hk (by omega) hshown]
    omega
  have hstart : Inv s := by
    refine ⟨_, le_rfl, Nat.min_le_right .., ?_⟩
    rw [Lru.shrink_of_length_le le_rfl]
    exact h
  obtain ⟨s', hs', ⟨k, hle, hmin, hshown⟩, hend⟩ := loop_ends hround hstart le_rfl
  rw [decide_eq_false_iff_not, hk hle hshown] at hend
  refine ⟨s', hs', ?_⟩
  by_cases hn : n ≤ (a.queue τ).length
  · have hkn : k = n := by omega
    exact hkn ▸ hshown
  · rw [Lru.shrink_of_length_le (by omega)] at hshown ⊢
    exact hshown

theorem adjustTail (h : Shown cfg M K s a) (ht : getTailLru t = some t') :
    ∃ s', adjustTail cfg t s = some s' ∧ Shown cfg M K s' a := by
  rw [MM2Q.adjustTail, ht, Option.bind_some]
  have hround : ∀ s, Shown cfg M K s a →
      ((s.getList t).tail.isSome && s.size t' + 1 ≤ cfg.tailSize.toNat) = true →
      ∃ s', moveToTail t t' s = some s' ∧ Shown cfg M K s' a ∧
        cfg.tailSize.toNat - s'.size t' < cfg.tailSize.toNat - s.size t' := by
    rintro s ⟨q, hq⟩ hguard
    rw [Bool.and_eq_true, Option.isSome_iff_exists, decide_eq_true_eq] at hguard
    obtain ⟨⟨x, hx⟩, hsize⟩ := hguard
    refine ⟨s.shift t t' x (s.node x).markTail, ?_, ⟨_, hq.moveToTail ht hx hsize⟩, ?_⟩
    · rw [moveToTail, hx]
      rfl
    · have hne : t' ≠ t := by rintro rfl; cases t' <;> simp [getTailLru] at ht
      have hsize' : (s.shift t t' x (s.node x).markTail).size t' = s.size t' + 1 :=
        (State.linkAtHead_size (s := s.unlink t x)).trans (by
          rw [if_pos rfl, State.unlink_size, if_neg hne])
      omega
  obtain ⟨s', hs', hshown, -⟩ := loop_ends hround h le_rfl
  exact ⟨s', hs', hshown⟩

theorem rebalance (h : Shown cfg M K s a) :
    ∃ s', rebalance cfg s = some s' ∧ Shown cfg M K s' (a.rebalance cfg) := by
  have hlruSize : ∀ {s : State α} {a}, Shown cfg M K s a → s.lruSize = a.size :=
    fun ⟨_, hq⟩ => hq.lruSize_eq
  have hwarm : ∀ {s : State α} {a}, Shown cfg M K s a →
      s.size .warm + s.size .warmTail = (a.queue .warm).length :=
    fun ⟨_, hq⟩ => (hq.length_eq .warm).symm
  have hhot : ∀ {s : State α} {a}, Shown cfg M K s a → s.size .hot = (a.queue .hot).length :=
    fun ⟨_, hq⟩ => (hq.length_eq .hot).symm
  obtain ⟨s₁, hs₁, h₁⟩ := shrink (τ := .warm) nofun hwarm (fun ⟨_, hq⟩ hx => hq.shrinkWarm hx) h
    (cfg.getWarmSizePercent * UInt64.ofNat a.size / 100).toNat
  obtain ⟨s₂, hs₂, h₂⟩ := shrink (τ := .hot) nofun hhot (fun ⟨_, hq⟩ hx => hq.shrinkHot hx) h₁
    (cfg.hotSizePercent * UInt64.ofNat s₁.lruSize / 100).toNat
  obtain ⟨s₃, hs₃, h₃⟩ := h₂.adjustTail (t := .cold) rfl
  obtain ⟨s₄, hs₄, h₄⟩ := h₃.adjustTail (t := .warm) rfl
  refine ⟨s₄, ?_, ?_⟩
  · simp only [MM2Q.rebalance, hlruSize h, hs₁, hs₂, hs₃, hs₄, Option.bind_eq_bind, Option.bind_some]
  · rw [hlruSize h₁] at h₄
    exact h₄

end Shown

/-! ## Operations -/

namespace Shows

variable (h : Shows cfg M K s q a)

include h

/-- A change of a node that leaves its flags -/
theorem set_of_sameFlags {f : Node → Node} (K' : Set α)
    (hflags : ∀ n, (f n).hot = n.hot ∧ (f n).cold = n.cold ∧ (f n).tail = n.tail)
    (hself : x ∈ K' ↔ (f (s.node x)).inMMContainer = true) (hothers : ∀ y ≠ x, y ∈ K' ↔ y ∈ K) :
    Shows cfg M K' (s.set x f) q (a.touch x (f (s.node x)).updateTime) := by
  refine ⟨h.toQueues.set_of_sameFlags K' hflags hself hothers, h.queue_eq, fun y => ?_,
    fun y hy => ?_, h.lruRefreshTime_eq, h.nextReconfigureTime_eq⟩
  · by_cases hyx : y = x
    · rw [hyx, State.set_node_self, Lru.touch_updateTime_self]
    · rw [State.set_node_of_ne hyx, Lru.touch_updateTime_of_ne hyx]
      exact h.updateTime_eq y
  · refine Eq.trans ?_ (h.left_eq y hy)
    by_cases hyx : y = x
    · obtain ⟨hhot, hcold, -⟩ := hflags (s.node x)
      rw [hyx, State.set_node_self, Node.temp, Node.temp, hhot, hcold]
    · rw [State.set_node_of_ne hyx]

omit h in
theorem touch (h : Shows cfg M M s q a) (x : α) (time : UInt32) :
    Shows cfg M M (s.set x (·.setUpdateTime time)) q (a.touch x time) :=
  h.set_of_sameFlags M (fun _ => ⟨rfl, rfl, rfl⟩) h.marked_iff (fun _ _ => Iff.rfl)

omit h in
/-- Linked, and not yet marked -/
theorem mark (h : Shows cfg (insert x M) M s q a) (time : UInt32) :
    Shows cfg (insert x M) (insert x M) (s.set x fun n => n.markInMMContainer.setUpdateTime time) q
      (a.touch x time) :=
  h.set_of_sameFlags _ (fun _ => ⟨rfl, rfl, rfl⟩) (iff_of_true (Set.mem_insert x M) rfl)
    (fun _ hy => Set.mem_insert_iff.trans (or_iff_right hy))

omit h in
/-- Marked, and linked no longer -/
theorem unmark (h : Shows cfg (M \ {x}) M s q a) :
    Shows cfg (M \ {x}) (M \ {x}) (s.set x Node.unmarkInMMContainer) q a := by
  have hset := h.set_of_sameFlags (x := x) (f := Node.unmarkInMMContainer) (M \ {x})
    (fun _ => ⟨rfl, rfl, rfl⟩) (iff_of_false (by simp) Bool.false_ne_true) (fun y hy => by simp [hy])
  have htime : (s.node x).unmarkInMMContainer.updateTime = a.updateTime x := h.updateTime_eq x
  rwa [htime, Lru.touch_self] at hset

theorem push (hx : x ∉ M) :
    Shows cfg (insert x M) K
      ((s.set x fun n => n.markHot.unmarkCold.unmarkTail).linkAtHead .hot x)
      (update q .hot (x :: q .hot)) (a.push x) := by
  have hset : Queues cfg M K (s.set x fun n => n.markHot.unmarkCold.unmarkTail) q :=
    h.toQueues.set_of_not_mem hx fun _ => rfl
  have hdenotes : Denotes cfg .hot ((s.set x fun n => n.markHot.unmarkCold.unmarkTail).node x) := by
    rw [State.set_node_self]
    exact ⟨rfl, by simp [inTail, Node.unmarkTail]⟩
  refine ⟨hset.linkAtHead hx hdenotes, ?_, fun y => ?_, fun y hy => ?_, h.lruRefreshTime_eq,
    h.nextReconfigureTime_eq⟩
  · rw [Lru.push, h.queue_eq]
    exact (joined_push q .hot x).symm
  · show ((s.set x fun n => n.markHot.unmarkCold.unmarkTail).node y).updateTime = a.updateTime y
    rw [← h.updateTime_eq]
    by_cases hyx : y = x
    · rw [hyx, State.set_node_self]
      rfl
    · rw [State.set_node_of_ne hyx]
  · rw [Set.mem_insert_iff, not_or] at hy
    show ((s.set x fun n => n.markHot.unmarkCold.unmarkTail).node y).temp = a.left y
    rw [State.set_node_of_ne hy.1]
    exact h.left_eq y hy.2

theorem leave (hx : x ∈ q t) :
    Shows cfg (M \ {x}) K (s.unlink t x) (update q t ((q t).erase x)) (a.leave x) := by
  have htemp := h.temp_eq hx
  refine ⟨h.toQueues.unlink hx, ?_, h.updateTime_eq, fun y hy => ?_, h.lruRefreshTime_eq,
    h.nextReconfigureTime_eq⟩
  · rw [Lru.leave, joined_erase h.toQueues hx, htemp, h.queue_eq]
  · show (s.node y).temp = update a.left x (a.temp x) y
    by_cases hyx : y = x
    · rw [hyx, update_self, htemp]
      exact (h.denotes hx).temp
    · rw [update_of_ne hyx]
      exact h.left_eq y fun hmem => hy ⟨hmem, hyx⟩

omit h in
theorem swap {oldNode newNode : α} (h : Shows cfg M M s q a) (hmem : oldNode ∈ q t)
    (hnew : newNode ∉ M) (hdenotes : Denotes cfg t (markAs t (s.node newNode))) :
    Shows cfg (insert newNode (M \ {oldNode})) (insert newNode (M \ {oldNode}))
      ((((s.replaceIn t oldNode newNode).set newNode (markAs t)).set oldNode
        Node.unmarkInMMContainer).set newNode fun n =>
          n.markInMMContainer.setUpdateTime (s.node oldNode).updateTime)
      (update q t (MultiDList.swap oldNode newNode (q t)))
      ((a.swap oldNode newNode).touch newNode (a.updateTime oldNode)) := by
  have htemp := h.temp_eq hmem
  have hne : oldNode ≠ newNode := fun heq => hnew (heq ▸ h.linked_iff.mpr ⟨t, hmem⟩)
  refine ⟨h.toQueues.replaced hmem hnew hdenotes _, ?_, fun y => ?_, fun y hy => ?_,
    h.lruRefreshTime_eq, h.nextReconfigureTime_eq⟩
  · rw [joined_swap h.toQueues hmem, Lru.touch, Lru.swap, htemp, h.queue_eq]
  · by_cases hyn : y = newNode
    · rw [hyn, State.set_node_self, Lru.touch_updateTime_self, ← h.updateTime_eq]
      rfl
    · rw [State.set_node_of_ne hyn, Lru.touch_updateTime_of_ne hyn]
      refine Eq.trans ?_ (h.updateTime_eq y)
      by_cases hyo : y = oldNode
      · rw [hyo, State.set_node_self, State.set_node_of_ne hne]
        rfl
      · rw [State.set_node_of_ne hyo, State.set_node_of_ne hyn]
        rfl
  · rw [Set.mem_insert_iff, not_or] at hy
    obtain ⟨hyn, hy⟩ := hy
    rw [State.set_node_of_ne hyn]
    show _ = update a.left oldNode (a.temp oldNode) y
    by_cases hyo : y = oldNode
    · rw [hyo, State.set_node_self, State.set_node_of_ne hne, update_self, htemp]
      exact (h.denotes hmem).temp
    · rw [State.set_node_of_ne hyo, State.set_node_of_ne hyn, update_of_ne hyo]
      exact h.left_eq y fun hmem => hy ⟨hmem, hyo⟩

omit [DecidableEq α] in
theorem getOldestWarmAge_eq (now : UInt32) :
    getOldestWarmAge s now = a.getOldestWarmAge now := by
  have hlast : (s.getList (if s.size .warmTail = 0 then .warm else .warmTail)).tail =
      (a.queue .warm).getLast? := by
    rw [h.queue_eq, joined, getLast?_append, h.tail_eq]
    split_ifs with hsize
    · rw [h.size_eq, length_eq_zero_iff] at hsize
      rw [hsize, getLast?_nil, Option.none_or]
    · rw [h.size_eq, length_eq_zero_iff] at hsize
      rw [getLast?_eq_some_getLast hsize, Option.some_or]
  unfold getOldestWarmAge Lru.getOldestWarmAge
  cases hoverall : (a.queue .warm).getLast? with
  | none => simp only [hlast.trans hoverall]
  | some x => simp only [hlast.trans hoverall, h.updateTime_eq]

omit [DecidableEq α] in
theorem reconfigure (access : Access) :
    Shows cfg M K (reconfigureLocked cfg s access) q (a.reconfigure cfg access) := by
  unfold reconfigureLocked Lru.reconfigure
  rw [h.nextReconfigureTime_eq, h.getOldestWarmAge_eq]
  split
  · exact h
  · exact ⟨h.toQueues.congr rfl rfl, h.queue_eq, h.updateTime_eq, h.left_eq, rfl, rfl⟩

theorem promote (hx : x ∈ M) :
    ∃ s', promote cfg s x = some s' ∧ Shown cfg M K s' (a.promote cfg x) := by
  have hmem := h.mem_getLruType hx
  have htemp := h.temp_eq hmem
  unfold MM2Q.promote Lru.promote
  rw [htemp]
  generalize htype : getLruType cfg (s.node x) = t at hmem
  have hflags := h.denotes hmem
  cases t with
  | hot =>
      simp only [hflags.1, if_true, LruType.temp]
      exact ⟨_, rfl, _, h.moveToHead .hot hmem⟩
  | warm =>
      simp only [hflags.1, hflags.2.1, hflags.2.2, Bool.false_eq_true, if_false, LruType.temp]
      exact ⟨_, rfl, _, h.moveToHead .warm hmem⟩
  | warmTail =>
      simp only [hflags.1, hflags.2.1, hflags.2.2, Bool.false_eq_true, if_false, if_true,
        LruType.temp]
      refine ⟨_, rfl, _, h.shift (n := (s.node x).unmarkTail) hmem .warm ?_ rfl rfl⟩
      exact ⟨hflags.1, hflags.2.1, by simp [inTail, Node.unmarkTail]⟩
  | cold =>
      simp only [hflags.1, hflags.2.1, hflags.2.2, Bool.false_eq_true, if_false, if_true,
        LruType.temp]
      have hmoved : Shows cfg M K (((s.unlink .cold x).linkAtHead .warm x).set x Node.unmarkCold)
          (moved q .cold .warm x) (a.move .cold .warm x) :=
        h.shift (n := (s.node x).unmarkCold) hmem .warm ⟨hflags.1, rfl, hflags.2.2⟩ rfl rfl
      split
      · exact Shown.rebalance ⟨_, hmoved⟩
      · exact ⟨_, rfl, _, hmoved⟩
  | coldTail =>
      simp only [hflags.1, hflags.2.1, hflags.2.2, Bool.false_eq_true, if_false, if_true,
        LruType.temp]
      have hmoved := h.shift (n := (s.node x).unmarkTail.unmarkCold) hmem .warm
        ⟨hflags.1, rfl, by simp [inTail, Node.unmarkCold, Node.unmarkTail]⟩ rfl rfl
      have hstate : (((s.set x Node.unmarkTail).unlink .coldTail x).linkAtHead .warm x).set x
          Node.unmarkCold = s.shift .coldTail .warm x (s.node x).unmarkTail.unmarkCold := by
        simp [State.set, State.unlink, State.linkAtHead, State.shift]
      rw [hstate]
      split
      · exact Shown.rebalance ⟨_, hmoved⟩
      · exact ⟨_, rfl, _, hmoved⟩

end Shows

namespace Refines

omit [DecidableEq α] in
theorem marked_iff (h : Refines cfg s a) : (s.node x).inMMContainer = true ↔ x ∈ a.evictionOrder := by
  obtain ⟨M, q, hq⟩ := h
  rw [← hq.toQueues.marked_iff, hq.mem_iff]

theorem add (h : Refines cfg s a) (x : α) (currTime : UInt32) :
    ∃ r, add cfg s x currTime = some r ∧ Refines cfg r.1 (a.add cfg x currTime) := by
  unfold MM2Q.add Lru.add
  by_cases hx : x ∈ a.evictionOrder
  · rw [if_pos (h.marked_iff.mpr hx), if_pos hx]
    exact ⟨_, rfl, h⟩
  rw [if_neg (mt h.marked_iff.mp hx), if_neg hx]
  obtain ⟨M, q, hq⟩ := h
  obtain ⟨s', hs', q', hq'⟩ := Shown.rebalance ⟨_, hq.push (mt hq.mem_iff.mp hx)⟩
  simp only [hs', Option.bind_eq_bind, Option.bind_some]
  exact ⟨_, rfl, _, q', hq'.mark currTime⟩

theorem remove (h : Refines cfg s a) (x : α) :
    ∃ r, remove cfg s x = some r ∧ Refines cfg r.1 (a.remove cfg x) := by
  unfold MM2Q.remove Lru.remove
  by_cases hx : x ∈ a.evictionOrder
  · rw [h.marked_iff.mpr hx, if_pos hx]
    obtain ⟨M, q, hq⟩ := h
    have hmem := hq.mem_getLruType (hq.mem_iff.mpr hx)
    obtain ⟨s', hs', q', hq'⟩ := Shown.rebalance ⟨_, hq.leave hmem⟩
    simp only [removeLocked, Bool.not_true, Bool.false_eq_true, if_false, if_true, hs',
      Option.bind_eq_bind, Option.bind_some, Option.map_some]
    exact ⟨_, rfl, _, q', hq'.unmark⟩
  · rw [Bool.eq_false_iff.mpr (mt h.marked_iff.mp hx), if_neg hx]
    exact ⟨_, rfl, h⟩

theorem replace (h : Refines cfg s a) {oldNode newNode : α}
    (hsuits : (s.node oldNode).inMMContainer = true → (s.node newNode).inMMContainer = false →
      Suits cfg (s.node oldNode) (s.node newNode)) :
    Refines cfg (replace cfg s oldNode newNode).1 (a.replace oldNode newNode) := by
  unfold MM2Q.replace Lru.replace
  by_cases hguard : oldNode ∈ a.evictionOrder ∧ newNode ∉ a.evictionOrder
  · have hold := h.marked_iff.mpr hguard.1
    have hnew := Bool.eq_false_iff.mpr (mt h.marked_iff.mp hguard.2)
    rw [if_pos hguard, hold, hnew]
    obtain ⟨M, q, hq⟩ := h
    have hmem := hq.mem_getLruType (hq.mem_iff.mpr hguard.1)
    have hdenotes := (hsuits hold hnew).denotes (hq.denotes hmem)
    exact ⟨_, _, hq.swap hmem (mt hq.mem_iff.mp hguard.2) hdenotes⟩
  · have hfail : (!(s.node oldNode).inMMContainer || (s.node newNode).inMMContainer) = true := by
      rw [Bool.or_eq_true, Bool.not_eq_true', Bool.eq_false_iff, Ne, h.marked_iff, h.marked_iff]
      rwa [not_and_or, not_not] at hguard
    rw [if_neg hguard, if_pos hfail]
    exact h

theorem recordAccess (h : Refines cfg s a) (x : α) (access : Access) :
    ∃ r, recordAccess cfg s x access = some r ∧ Refines cfg r.1 (a.recordAccess cfg x access) := by
  have hguard : (!((s.node x).inMMContainer &&
      (s.node x).updateTime + s.lruRefreshTime ≤ access.curr)) = true ↔
      ¬ (x ∈ a.evictionOrder ∧ a.updateTime x + a.lruRefreshTime ≤ access.curr) := by
    rw [Bool.not_eq_true', Bool.eq_false_iff, Ne, Bool.and_eq_true, decide_eq_true_eq, h.marked_iff]
    obtain ⟨M, q, hq⟩ := h
    rw [hq.updateTime_eq, hq.lruRefreshTime_eq]
  unfold MM2Q.recordAccess Lru.recordAccess
  by_cases hmode : (access.mode = .write ∧ !cfg.updateOnWrite) ∨
      (access.mode = .read ∧ !cfg.updateOnRead)
  · rw [if_pos hmode, if_pos hmode]
    exact ⟨_, rfl, h⟩
  rw [if_neg hmode, if_neg hmode]
  by_cases hrefresh : x ∈ a.evictionOrder ∧ a.updateTime x + a.lruRefreshTime ≤ access.curr
  swap
  · rw [if_pos (hguard.mpr hrefresh), if_pos hrefresh]
    exact ⟨_, rfl, h⟩
  rw [if_neg (mt hguard.mp (not_not.mpr hrefresh)), if_neg (not_not.mpr hrefresh)]
  by_cases hlock : (cfg.tryLockUpdate && !access.free) = true
  · rw [if_pos hlock, if_pos hlock]
    exact ⟨_, rfl, h⟩
  rw [if_neg hlock, if_neg hlock]
  obtain ⟨M, q, hq⟩ := h
  have hq₁ := hq.reconfigure access
  have hx : x ∈ M := hq.mem_iff.mpr hrefresh.1
  obtain ⟨s₂, hs₂, q₂, hq₂⟩ := hq₁.promote hx
  simp only [hq₁.toQueues.marked_iff.mp hx, Bool.not_true, Bool.false_eq_true, if_false, hs₂,
    Option.bind_eq_bind, Option.bind_some]
  exact ⟨_, rfl, M, q₂, hq₂.touch x access.curr⟩

end Refines

/-! ## The eviction iterator -/

variable {it : Iterator α} {xs : List α}

/-- The nodes from that of the iterator on. Within a queue it goes from the tail to the head. -/
inductive Ahead (q : LruType → List α) : Iterator α → List α → Prop
  | done : Ahead q ⟨[], none⟩ []
  | node {t ts x ys zs} (hnodup : (t :: ts).Nodup) (hsplit : q t = ys ++ x :: zs) :
      Ahead q ⟨t :: ts, some x⟩ (x :: (ys.reverse ++ ts.flatMap fun u => (q u).reverse))

omit [DecidableEq α] in
theorem Ahead.curr_eq (h : Ahead q it xs) : it.curr = xs.head? := by
  cases h <;> rfl

omit [DecidableEq α] in
theorem Ahead.head_mem (h : Ahead q it (x :: xs)) : ∃ t, x ∈ q t := by
  cases h with
  | @node t ts _ ys zs _ hsplit => exact ⟨t, hsplit ▸ mem_append_right ys mem_cons_self⟩

omit [DecidableEq α] in
theorem ahead_rbeginFrom (h : Queues cfg M K s q) {ts : List LruType} (hnodup : ts.Nodup) :
    Ahead q (rbeginFrom s ts) (ts.flatMap fun u => (q u).reverse) := by
  induction ts with
  | nil => exact .done
  | cons t ts ih =>
      rw [rbeginFrom, flatMap_cons, h.size_eq, h.tail_eq]
      rcases eq_nil_or_concat (q t) with hnil | ⟨ys, x, hsplit⟩
      · rw [hnil]
        exact ih (nodup_cons.mp hnodup).2
      · rw [hsplit, if_neg (by simp), concat_eq_append, getLast?_concat,
          reverse_append]
        exact .node hnodup (hsplit.trans concat_eq_append)

omit [DecidableEq α] in
theorem ahead_skipEnds (h : Queues cfg M K s q) {t : LruType} {ts : List LruType} {ys zs : List α}
    (hnodup : (t :: ts).Nodup) (hsplit : q t = ys ++ zs) :
    Ahead q (skipEnds s (t :: ts) ys.getLast?)
      (ys.reverse ++ ts.flatMap fun u => (q u).reverse) := by
  induction ts generalizing t ys zs with
  | nil =>
      rcases eq_nil_or_concat ys with rfl | ⟨ys, y, rfl⟩
      · exact .done
      · rw [concat_eq_append] at hsplit ⊢
        rw [getLast?_concat, reverse_append]
        exact .node hnodup (hsplit.trans (append_assoc ..))
  | cons u us ih =>
      rcases eq_nil_or_concat ys with rfl | ⟨ys, y, rfl⟩
      · -- on to the tail of the next list
        have hnext : (us.cons u).head?.bind (fun t => (s.getList t).tail) = (q u).getLast? :=
          h.tail_eq u
        rw [getLast?_nil, skipEnds, hnext]
        exact ih (nodup_cons.mp hnodup).2 (append_nil (q u)).symm
      · rw [concat_eq_append] at hsplit ⊢
        rw [getLast?_concat, reverse_append]
        exact .node hnodup (hsplit.trans (append_assoc ..))

omit [DecidableEq α] in
theorem Ahead.goForward (h : Queues cfg M K s q)
    (hit : Ahead q it xs) : Ahead q (goForward s it) xs.tail := by
  cases hit with
  | done => exact .done
  | @node t ts x ys zs hnodup hsplit =>
      have hlist := h.holds.list t
      rw [hsplit] at hlist
      have hprev : s.lru.links.prev x = ys.getLast? := hlist.of_append.1
      rw [MM2Q.goForward, if_neg (cons_ne_nil t ts), Option.bind_some, hprev]
      exact ahead_skipEnds h hnodup hsplit

/-- A node that the iterator has passed can be taken out. -/
theorem Ahead.erase (h : Ahead q it xs) (hx : x ∉ xs)
    (u : LruType) : Ahead (update q u ((q u).erase x)) it xs := by
  cases h with
  | done => exact .done
  | @node t ts y ys zs hnodup hsplit =>
      rw [mem_cons, not_or, mem_append, not_or, mem_reverse] at hx
      obtain ⟨hxy, hxys, hxts⟩ := hx
      have hrest : (ts.flatMap fun v => (q v).reverse) =
          ts.flatMap fun v => (update q u ((q u).erase x) v).reverse := by
        refine flatMap_congr fun v hv => ?_
        by_cases hvu : v = u
        · subst hvu
          have hnot : x ∉ q v := fun hmem =>
            hxts (mem_flatMap.mpr ⟨v, hv, mem_reverse.mpr hmem⟩)
          rw [update_self, erase_of_not_mem hnot]
        · rw [update_of_ne hvu]
      rw [hrest]
      by_cases htu : t = u
      · subst htu
        refine .node hnodup (?_ : _ = _ ++ _ :: zs.erase x)
        rw [update_self, hsplit, erase_append_right _ hxys,
          erase_cons_tail (by simpa using Ne.symm hxy)]
      · exact .node hnodup ((update_of_ne htu ..).trans hsplit)

omit [DecidableEq α] in
theorem Ahead.nodup (h : Queues cfg M K s q) (hit : Ahead q it xs) :
    xs.Nodup := by
  cases hit with
  | done => exact nodup_nil
  | @node t ts x ys zs hnodup hsplit =>
      have hall : ((t :: ts).flatMap fun u => (q u).reverse).Nodup := by
        refine nodup_flatMap.mpr ⟨fun u _ => nodup_reverse.mpr (h.holds.list u).nodup, ?_⟩
        refine hnodup.imp fun {u v} hne x hu hv => hne ?_
        exact h.holds.apart (mem_reverse.mp hu) (mem_reverse.mp hv)
      rw [flatMap_cons, hsplit, reverse_append, reverse_cons, append_assoc,
        append_assoc] at hall
      exact (nodup_append.mp hall).2.1

omit [DecidableEq α] in
theorem Shows.flatMap_evictionOrder (h : Shows cfg M K s q a) :
    (evictionOrder.flatMap fun u => (q u).reverse) = a.evictionOrder := by
  simp [evictionOrder, Lru.evictionOrder, h.queue_eq, joined]

omit [DecidableEq α] in
theorem Shows.ahead_rbegin (h : Shows cfg M K s q a) :
    Ahead q (rbeginFrom s evictionOrder) a.evictionOrder :=
  h.flatMap_evictionOrder ▸ ahead_rbeginFrom h.toQueues (by decide)

/-- What holds between two moves of the iterator -/
def Follows (cfg : Config) (r : State α × Iterator α) (r' : Lru α × List α) : Prop :=
  ∃ M q, Shows cfg M M r.1 q r'.1 ∧ Ahead q r.2 r'.2

theorem Follows.move {r : State α × Iterator α} {r' : Lru α × List α} (h : Follows cfg r r')
    (m : Move) : Option.Rel (Follows cfg) (move cfg r m) (Lru.evict r' m) := by
  obtain ⟨M, q, hq, hit⟩ := h
  have hnext := hit.goForward hq.toQueues
  cases m with
  | next => exact .some ⟨M, q, hq, hnext⟩
  | resetToBegin => exact .some ⟨M, q, hq, hq.ahead_rbegin⟩
  | remove =>
      simp only [MM2Q.move, Lru.evict, hit.curr_eq]
      cases hxs : r'.2 with
      | nil => exact .none
      | cons x xs =>
          rw [hxs] at hit hnext
          have hnodup := nodup_cons.mp (hit.nodup hq.toQueues)
          have hmem := hq.mem_getLruType (hq.linked_iff.mpr hit.head_mem)
          exact .some ⟨_, _, (hq.leave hmem).unmark, hnext.erase hnodup.1 _⟩

theorem Refines.withEvictionIterator (h : Refines cfg s a) (moves : List Move) :
    Option.Rel (Refines cfg) (withEvictionIterator cfg s moves)
      ((exec Lru.evict (a, a.evictionOrder) moves).map Prod.fst) := by
  obtain ⟨M, q, hq⟩ := h
  have hstart : Follows cfg (s, rbeginFrom s evictionOrder) (a, a.evictionOrder) :=
    ⟨M, q, hq, hq.ahead_rbegin⟩
  have hmove : ∀ (r : State α × Iterator α) r' m, Follows cfg r r' → True →
      Option.Rel (Follows cfg) (move cfg r m) (Lru.evict r' m) := fun _ _ m hfollows _ =>
    hfollows.move m
  have hrun := exec_rel hmove (Along.of_forall fun m (_ : m ∈ moves) _ => trivial) hstart
  unfold MM2Q.withEvictionIterator
  generalize exec (MM2Q.move cfg) (s, rbeginFrom s evictionOrder) moves = r at hrun ⊢
  generalize exec Lru.evict (a, a.evictionOrder) moves = r' at hrun ⊢
  cases hrun with
  | none => exact .none
  | some hfollows =>
      obtain ⟨M', q', hq', -⟩ := hfollows
      exact .some ⟨M', q', hq'⟩

/-! ## Runs -/

/-- **Every operation is one of the machine without tails.** -/
theorem Refines.step (h : Refines cfg s a) {op : Op α} (hsuitable : SuitableReplace cfg s op) :
    Option.Rel (Refines cfg) (step cfg s op) (Lru.step cfg a op) := by
  cases op with
  | add node currTime =>
      obtain ⟨r, hr, hrefines⟩ := h.add node currTime
      rw [MM2Q.step, hr]
      exact .some hrefines
  | remove node =>
      obtain ⟨r, hr, hrefines⟩ := h.remove node
      rw [MM2Q.step, hr]
      exact .some hrefines
  | replace oldNode newNode => exact .some (h.replace hsuitable)
  | recordAccess node access =>
      obtain ⟨r, hr, hrefines⟩ := h.recordAccess node access
      rw [MM2Q.step, hr]
      exact .some hrefines
  | withEvictionIterator moves => exact h.withEvictionIterator moves

omit [DecidableEq α] in
theorem refines_init (cfg : Config) (time : UInt32) :
    Refines cfg (init cfg time : State α) (Lru.init cfg time) := by
  refine ⟨∅, fun _ => [], queues_init time, ?_, fun _ => rfl, fun _ _ => rfl, rfl, rfl⟩
  funext t
  cases t <;> rfl

end CacheLib.MM2Q
