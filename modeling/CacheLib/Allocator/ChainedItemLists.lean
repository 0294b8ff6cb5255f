/-
The chained items of a parent are a list.

`Lists` is what the calls are for: a list of children for each parent, and for each child the parent
it belongs to or has been allocated for. `Links` says that the pointers are these lists. Marks,
references and counters are the other half (`Represents`).

Two things go wrong. A transfer from a parent without children dereferences the null pointer, and a
child that is added while it is in a chain breaks the chain before the call finds out.
-/
import CacheLib.Allocator.ChainedItems

set_option autoImplicit false

namespace CacheLib.ChainedItems

open Chain Function List

variable {Parent Child : Type}

/-! ## Lists -/

structure Lists (Parent Child : Type) where
  chain : Parent → List Child
  parent : Child → Parent

section Lists

variable [DecidableEq Parent] [DecidableEq Child]

namespace Lists

def setChain (l : Lists Parent Child) (parent : Parent) (xs : List Child) : Lists Parent Child :=
  { l with chain := update l.chain parent xs }

def replaceIn (oldItem newItem : Child) (xs : List Child) : List Child :=
  xs.map fun c => if c = oldItem then newItem else c

/-- The chain of one parent becomes that of another. -/
def transfer (l : Lists Parent Child) (parent newParent : Parent) : Lists Parent Child where
  chain := update (update l.chain parent []) newParent (l.chain parent)
  parent := fun c => if c ∈ l.chain parent then newParent else l.parent c

end Lists

/-- What a call does to the lists, and what it returns -/
def Call.apply (l : Lists Parent Child) : Call Parent Child → Lists Parent Child × Result Child
  | addChainedItem parent child => (l.setChain parent (child :: l.chain parent), .done)
  | popChainedItem parent =>
      match l.chain parent with
      | [] => (l, .threw)
      | child :: xs => (l.setChain parent xs, .handle child)
  | replaceChainedItem oldItem newItem parent =>
      if l.parent oldItem = l.parent newItem ∧ l.parent oldItem = parent ∧
          newItem ∉ l.chain parent ∧ oldItem ∈ l.chain parent then
        (l.setChain parent (Lists.replaceIn oldItem newItem (l.chain parent)), .handle oldItem)
      else (l, .threw)
  | transferChainAndReplace parent newParent =>
      if l.chain newParent = [] then (l.transfer parent newParent, .done) else (l, .threw)

/-- What a step does to the lists and to the history of the results -/
def follow : Lists Parent Child × List (Call Parent Child × Result Child) → Label Parent Child →
    Lists Parent Child × List (Call Parent Child × Result Child)
  | (l, log), .allocate parent child =>
      ({ l with parent := update l.parent child parent }, log)
  | (l, log), .acquire _ | (l, log), .release _ => (l, log)
  | (l, log), .call call => ((call.apply l).1, (call, (call.apply l).2) :: log)

/-- The lists and the results of the calls, after a run -/
def replay (parent : Child → Parent) (labels : List (Label Parent Child)) :
    Lists Parent Child × List (Call Parent Child × Result Child) :=
  labels.foldl follow (⟨fun _ => [], parent⟩, [])

end Lists

/-! ## Links -/

section Links

variable {l : Lists Parent Child} {next : Child → Option Child} {table : Parent → Option Child}
  {p q : Parent} {c old new : Child} {xs front back : List Child}

structure Links (l : Lists Parent Child) (next : Child → Option Child)
    (table : Parent → Option Child) : Prop where
  path : ∀ p, Path next (table p) (l.chain p) none
  parent : ∀ p, ∀ c ∈ l.chain p, l.parent c = p
  nodup : ∀ p, (l.chain p).Nodup
  rest : ∀ c, c ∉ l.chain (l.parent c) → next c = none

variable (h : Links l next table)

include h

/-- A child that is not in the list of its parent is in none. -/
theorem Links.not_mem (hc : c ∉ l.chain (l.parent c)) (p : Parent) :
    c ∉ l.chain p := by
  intro hmem
  have hparent := h.parent p c hmem
  exact hc (hparent ▸ hmem)

theorem Links.table_eq_none : table p = none ↔ l.chain p = [] := by
  have hpath := h.path p
  cases hxs : l.chain p with
  | nil =>
      rw [hxs] at hpath
      exact ⟨fun _ => rfl, fun _ => hpath⟩
  | cons x xs =>
      rw [hxs] at hpath
      rw [hpath.1]
      exact ⟨nofun, nofun⟩

theorem Links.not_head (hc : c ∉ l.chain p) : table p ≠ some c := by
  have hpath := h.path p
  intro htable
  cases hxs : l.chain p with
  | nil =>
      rw [hxs] at hpath
      exact nomatch hpath.symm.trans htable
  | cons x xs =>
      rw [hxs] at hpath hc
      obtain rfl := Option.some.inj (hpath.1.symm.trans htable)
      exact hc mem_cons_self

variable [DecidableEq Parent]

omit h in
theorem setChain_self (l : Lists Parent Child) (p : Parent) (xs : List Child) :
    (l.setChain p xs).chain p = xs := update_self ..

omit h in
theorem setChain_of_ne (l : Lists Parent Child) (hq : q ≠ p) (xs : List Child) :
    (l.setChain p xs).chain q = l.chain q := update_of_ne hq _ _

omit h in
theorem mem_setChain (l : Lists Parent Child) (p : Parent) (xs : List Child) (x : Child) :
    x ∈ (l.setChain p xs).chain ((l.setChain p xs).parent x) ↔
      if l.parent x = p then x ∈ xs else x ∈ l.chain (l.parent x) := by
  change x ∈ (l.setChain p xs).chain (l.parent x) ↔ _
  split <;> rename_i hx
  · rw [hx, setChain_self]
  · rw [setChain_of_ne l hx]

omit h in
/-- The marks, when the list of one parent changes -/
theorem marks_set {marked : Parent → Bool} {b : Bool} (h : ∀ p, marked p = true ↔ l.chain p ≠ [])
    (hb : b = true ↔ xs ≠ []) (q : Parent) :
    update marked p b q = true ↔ (l.setChain p xs).chain q ≠ [] := by
  by_cases hq : q = p
  · rw [hq, update_self, setChain_self]
    exact hb
  · rw [update_of_ne hq, setChain_of_ne l hq]
    exact h q

/-- The chain of one parent changes. -/
theorem Links.set {next' : Child → Option Child}
    {table' : Parent → Option Child} (hpath : Path next' (table' p) xs none)
    (htable : ∀ q ≠ p, table' q = table q) (hkeep : ∀ x, l.parent x ≠ p → next' x = next x)
    (hparent : ∀ x ∈ xs, l.parent x = p) (hnodup : xs.Nodup)
    (hrest : ∀ x, l.parent x = p → x ∉ xs → next' x = none) :
    Links (l.setChain p xs) next' table' := by
  constructor
  · intro q
    by_cases hq : q = p
    · rw [hq, setChain_self]
      exact hpath
    · rw [setChain_of_ne l hq, htable q hq]
      refine (h.path q).congr fun x hx => hkeep x ?_
      rw [h.parent q x hx]
      exact hq
  · intro q x hx
    by_cases hq : q = p
    · rw [hq, setChain_self] at hx
      exact (hparent x hx).trans hq.symm
    · rw [setChain_of_ne l hq] at hx
      exact h.parent q x hx
  · intro q
    by_cases hq : q = p
    · rw [hq, setChain_self]
      exact hnodup
    · rw [setChain_of_ne l hq]
      exact h.nodup q
  · intro x hx
    change x ∉ (l.setChain p xs).chain (l.parent x) at hx
    by_cases hq : l.parent x = p
    · rw [hq, setChain_self] at hx
      exact hrest x hq hx
    · rw [setChain_of_ne l hq] at hx
      rw [hkeep x hq]
      exact h.rest x hx

variable [DecidableEq Child]

theorem Links.push (hc : c ∉ l.chain (l.parent c)) (hp : l.parent c = p) :
    Links (l.setChain p (c :: l.chain p)) (update next c (table p))
      (update table p (some c)) := by
  have hnew : c ∉ l.chain p := h.not_mem hc p
  have hkeep : ∀ x, x ≠ c → update next c (table p) x = next x :=
    fun x hx => update_of_ne hx _ _
  refine h.set ?_ (fun q hq => update_of_ne hq _ _) (fun x hx => hkeep x ?_) ?_
    (nodup_cons.mpr ⟨hnew, h.nodup p⟩) (fun x hx hnot => ?_)
  · refine ⟨update_self .., ?_⟩
    rw [update_self]
    refine (h.path p).congr fun x hx => hkeep x ?_
    rintro rfl
    exact hnew hx
  · rintro rfl
    exact hx hp
  · intro x hx
    rcases mem_cons.mp hx with rfl | hx
    · exact hp
    · exact h.parent p x hx
  · rw [mem_cons, not_or] at hnot
    rw [hkeep x hnot.1]
    exact h.rest x (hx ▸ hnot.2)

theorem Links.pop (hchain : l.chain p = c :: xs) :
    Links (l.setChain p xs) (update next c none) (update table p (next c)) := by
  have hpath := h.path p
  have hnodup := h.nodup p
  rw [hchain] at hpath
  rw [hchain, nodup_cons] at hnodup
  have hmem : ∀ x ∈ xs, x ∈ l.chain p := by
    intro x hx
    rw [hchain]
    exact mem_cons_of_mem c hx
  have hc : c ∈ l.chain p := by
    rw [hchain]
    exact mem_cons_self
  have hkeep : ∀ x, x ≠ c → update next c none x = next x :=
    fun x hx => update_of_ne hx _ _
  refine h.set ?_ (fun q hq => update_of_ne hq _ _) (fun x hx => hkeep x ?_)
    (fun x hx => h.parent p x (hmem x hx)) hnodup.2 (fun x hx hnot => ?_)
  · rw [update_self]
    refine hpath.2.congr fun x hx => hkeep x ?_
    rintro rfl
    exact hnodup.1 hx
  · rintro rfl
    exact hx (h.parent p x hc)
  · by_cases hxc : x = c
    · rw [hxc, update_self]
    · rw [hkeep x hxc]
      apply h.rest
      rw [hx, hchain, mem_cons, not_or]
      exact ⟨hxc, hnot⟩

theorem Links.replace (hchain : l.chain p = front ++ old :: back)
    (hnew : new ∉ l.chain p) (hp : l.parent new = p) :
    Links (l.setChain p (front ++ new :: back))
      (update (update (setLink next front.getLast? (some new)) new (next old)) old
        none)
      (update table p (setHead (table p) front.getLast? (some new))) := by
  have hpath := h.path p
  have hnodup := h.nodup p
  have holdp : l.parent old = p := h.parent p old (by rw [hchain]; simp)
  rw [hchain] at hpath hnodup hnew
  obtain ⟨mid, hfront, -, hback⟩ := path_append.mp hpath
  have hparts := hnodup
  rw [nodup_middle, nodup_cons, mem_append, not_or] at hparts
  obtain ⟨⟨holdFront, holdBack⟩, hrest⟩ := hparts
  rw [mem_append, mem_cons, not_or, not_or] at hnew
  obtain ⟨hnewFront, hne, hnewBack⟩ := hnew
  have hkeep : ∀ x, x ≠ old → x ≠ new →
      update (update (setLink next front.getLast? (some new)) new (next old)) old
        none x = setLink next front.getLast? (some new) x := by
    intro x hold hnew
    rw [update_of_ne hold, update_of_ne hnew]
  have hlink : ∀ x, x ∉ front → setLink next front.getLast? (some new) x = next x :=
    fun x hx => setLink_of_ne (fun hlast => hx (mem_of_getLast? hlast)) _ _
  have hmem : ∀ x, x ∈ front ++ back → x ∈ l.chain p := by
    intro x hx
    rw [hchain]
    exact perm_middle.mem_iff.mpr (mem_cons_of_mem old hx)
  refine h.set ?_ (fun q hq => update_of_ne hq _ _) (fun x hx => ?_) (fun x hx => ?_) ?_
    (fun x hx hnot => ?_)
  · rw [update_self]
    refine path_append.mpr ⟨some new, ?_, rfl, ?_⟩
    · refine (hfront.redirect hrest.of_append_left (some new)).congr fun x hx => hkeep x ?_ ?_
      · rintro rfl
        exact holdFront hx
      · rintro rfl
        exact hnewFront hx
    · rw [update_of_ne hne, update_self]
      refine hback.congr fun x hx => ?_
      rw [hkeep x, hlink x]
      · exact fun hx' => disjoint_of_nodup_append hrest hx' hx
      · rintro rfl
        exact holdBack hx
      · rintro rfl
        exact hnewBack hx
  · rw [hkeep x, hlink x]
    · exact fun hx' => hx (h.parent p x (hmem x (mem_append_left back hx')))
    · rintro rfl
      exact hx holdp
    · rintro rfl
      exact hx hp
  · rw [perm_middle.mem_iff, mem_cons] at hx
    rcases hx with rfl | hx
    · exact hp
    · exact h.parent p x (hmem x hx)
  · rw [nodup_middle, nodup_cons, mem_append, not_or]
    exact ⟨⟨hnewFront, hnewBack⟩, hrest⟩
  · rw [perm_middle.mem_iff, mem_cons, mem_append, not_or, not_or] at hnot
    by_cases hxold : x = old
    · rw [hxold, update_self]
    · rw [hkeep x hxold hnot.1, hlink x hnot.2.1]
      apply h.rest
      rw [hx, hchain, perm_middle.mem_iff, mem_cons, mem_append, not_or, not_or]
      exact ⟨hxold, hnot.2⟩

/-- A transfer keeps which children are in the lists of their parents. -/
theorem Links.mem_transfer (hq : l.chain q = []) (x : Child) :
    x ∈ (l.transfer p q).chain ((l.transfer p q).parent x) ↔ x ∈ l.chain (l.parent x) := by
  by_cases hx : x ∈ l.chain p
  · have hparent : (l.transfer p q).parent x = q := if_pos hx
    have hchain : (l.transfer p q).chain q = l.chain p := update_self ..
    rw [hparent, hchain, h.parent p x hx]
  · have hparent : (l.transfer p q).parent x = l.parent x := if_neg hx
    rw [hparent]
    change x ∈ update (update l.chain p []) q (l.chain p) (l.parent x) ↔ _
    by_cases hxq : l.parent x = q
    · rw [hxq, update_self, hq]
      exact ⟨fun hmem => absurd hmem hx, nofun⟩
    rw [update_of_ne hxq]
    by_cases hxp : l.parent x = p
    · rw [hxp, update_self]
      exact ⟨nofun, fun hmem => absurd hmem hx⟩
    · rw [update_of_ne hxp]

theorem Links.transfer (hq : l.chain q = []) (hp : l.chain p ≠ []) :
    Links (l.transfer p q) next (update (update table p none) q (table p)) := by
  have hpq : p ≠ q := by
    rintro rfl
    exact hp hq
  have hcases : ∀ r, r = q ∧ (l.transfer p q).chain r = l.chain p ∨
      r = p ∧ (l.transfer p q).chain r = [] ∨
      r ≠ q ∧ r ≠ p ∧ (l.transfer p q).chain r = l.chain r := by
    intro r
    by_cases hrq : r = q
    · exact Or.inl ⟨hrq, by rw [hrq]; exact update_self ..⟩
    · have hchain : (l.transfer p q).chain r = update l.chain p [] r :=
        update_of_ne hrq _ _
      by_cases hrp : r = p
      · exact Or.inr (Or.inl ⟨hrp, by rw [hchain, hrp, update_self]⟩)
      · exact Or.inr (Or.inr ⟨hrq, hrp, by rw [hchain, update_of_ne hrp]⟩)
  have hparent : ∀ x, x ∉ l.chain p → (l.transfer p q).parent x = l.parent x :=
    fun x hx => if_neg hx
  constructor
  · intro r
    rcases hcases r with ⟨rfl, hr⟩ | ⟨rfl, hr⟩ | ⟨hrq, hrp, hr⟩
    · rw [hr, update_self]
      exact h.path p
    · rw [hr, update_of_ne hpq, update_self]
      rfl
    · rw [hr, update_of_ne hrq, update_of_ne hrp]
      exact h.path r
  · intro r x hx
    rcases hcases r with ⟨rfl, hr⟩ | ⟨rfl, hr⟩ | ⟨hrq, hrp, hr⟩
    · rw [hr] at hx
      exact if_pos hx
    · rw [hr] at hx
      exact nomatch hx
    · rw [hr] at hx
      rw [hparent x fun hxp => hrp ((h.parent r x hx).symm.trans (h.parent p x hxp))]
      exact h.parent r x hx
  · intro r
    rcases hcases r with ⟨rfl, hr⟩ | ⟨rfl, hr⟩ | ⟨hrq, hrp, hr⟩
    · rw [hr]
      exact h.nodup p
    · rw [hr]
      exact nodup_nil
    · rw [hr]
      exact h.nodup r
  · intro x hx
    by_cases hxp : x ∈ l.chain p
    · -- It is in the list of the new parent.
      have hxq : (l.transfer p q).parent x = q := if_pos hxp
      have hchain : (l.transfer p q).chain q = l.chain p := update_self ..
      rw [hxq, hchain] at hx
      exact absurd hxp hx
    · rw [hparent x hxp] at hx
      apply h.rest
      rcases hcases (l.parent x) with ⟨hr, -⟩ | ⟨hr, -⟩ | ⟨-, -, hr⟩
      · rw [hr, hq]
        exact not_mem_nil
      · rw [hr]
        exact hxp
      · rwa [hr] at hx

end Links

/-! ## Calls -/

section Calls

variable [DecidableEq Parent] [DecidableEq Child] {s s' : State Parent Child}
  {l : Lists Parent Child} {p q : Parent} {c : Child}

theorem insertOrReplace_eq (hnot : s.table (s.key c) ≠ some c) :
    s.insertOrReplace c
      = ({ s with table := update s.table (s.key c) (some c) }, s.table (s.key c)) := by
  have happly : (AccessContainer.Op.insertOrReplace c false).apply s.config s.table
      = (update s.table (s.key c) (some c), .handle (s.table (s.key c))) := by
    rw [AccessContainer.Op.apply]
    exact (if_neg hnot).trans (if_neg (by simp))
  rw [State.insertOrReplace, happly]

theorem remove_eq (hhead : s.table (s.key c) = some c) :
    s.remove c = { s with table := update s.table (s.key c) none } := by
  have happly : (AccessContainer.Op.remove c).apply s.config s.table
      = (update s.table (s.key c) none, .done true) := by
    rw [AccessContainer.Op.apply]
    exact if_pos hhead
  rw [State.remove, happly]

theorem linkHead_eq (hnot : s.table (s.key c) ≠ some c) (hnext : s.next c = none) :
    s.linkHead c = ({ s with
      table := update s.table (s.key c) (some c)
      next := update s.next c (s.table (s.key c)) }, true) := by
  rw [State.linkHead, insertOrReplace_eq hnot]
  cases s.table (s.key c) with
  | none =>
      dsimp only
      rw [← hnext, update_eq_self]
  | some old =>
      dsimp only
      rw [hnext]
      rfl

theorem replaceIn_middle {old new : Child} {front back : List Child} (hfront : old ∉ front)
    (hback : old ∉ back) :
    Lists.replaceIn old new (front ++ old :: back) = front ++ new :: back := by
  have hkeep : ∀ xs : List Child, old ∉ xs → xs.map (fun c => if c = old then new else c) = xs := by
    intro xs hxs
    conv_rhs => rw [← map_id xs]
    refine map_congr_left fun x hx => if_neg ?_
    rintro rfl
    exact hxs hx
  rw [Lists.replaceIn, map_append, map_cons, hkeep front hfront, hkeep back hback, if_pos rfl]

/-- The mark and the counter say whether there is a next child. -/
theorem unlinkHead_eq (hkey : s.key c = p) (hhead : s.table p = some c)
    (hmark : s.hasChainedItem p = true) (hnext : ∀ n, s.next c = some n → s.key n = p ∧ n ≠ c) :
    s.unlinkHead p c = { s with
      table := update s.table p (s.next c)
      hasChainedItem := update s.hasChainedItem p (s.next c).isSome
      numChainedParentItems := s.numChainedParentItems - (!(s.next c).isSome).toNat } := by
  rw [State.unlinkHead]
  cases hn : s.next c with
  | none =>
      dsimp only
      rw [remove_eq (by rw [hkey, hhead]), hkey]
      rfl
  | some n =>
      obtain ⟨hkeyn, hne⟩ := hnext n hn
      dsimp only
      rw [insertOrReplace_eq (by rw [hkeyn, hhead]; exact fun h => hne (Option.some.inj h).symm),
        hkeyn, Option.isSome_some, ← hmark, update_eq_self, hmark]
      rfl

variable [Fintype Parent] [Fintype Child]

structure Represents (s : State Parent Child) (l : Lists Parent Child) : Prop where
  key : s.key = l.parent
  links : Links l s.next s.table
  hasChainedItem : ∀ p, s.hasChainedItem p = true ↔ l.chain p ≠ []
  inMMContainer : ∀ c, s.inMMContainer c = true ↔ c ∈ l.chain (l.parent c)
  refCount : ∀ c, s.refCount c = s.handles c + (s.inMMContainer c).toNat
  parents : s.numChainedParentItems = ∑ p, (s.hasChainedItem p).toNat
  children : s.numChainedChildItems = ∑ c, (s.inMMContainer c).toNat
  nullDereferenced : s.nullDereferenced = false

omit [DecidableEq Parent] in
/-- A handle comes or goes. -/
theorem Represents.acquire (h : Represents s l) (c : Child) : Represents (s.acquire c) l := by
  refine ⟨h.key, h.links, h.hasChainedItem, h.inMMContainer, fun x => ?_, h.parents, h.children,
    h.nullDereferenced⟩
  have hx := h.refCount x
  simp only [State.acquire, State.incRef, update_apply]
  split <;> rename_i hxc
  · subst hxc
    omega
  · exact hx

omit [DecidableEq Parent] in
theorem Represents.release (h : Represents s l) (hc : 0 < s.handles c) :
    Represents (s.release c) l := by
  refine ⟨h.key, h.links, h.hasChainedItem, h.inMMContainer, fun x => ?_, h.parents, h.children,
    h.nullDereferenced⟩
  have hx := h.refCount x
  simp only [State.release, State.decRef, update_apply]
  split <;> rename_i hxc
  · subst hxc
    omega
  · exact hx

theorem Represents.addChainedItem (h : Represents s l) (hp : s.key c = p)
    (hc : s.inMMContainer c = false) (hhandle : 0 < s.handles c) :
    ∃ s', s.addChainedItem p c = (s', .done) ∧ s'.log = s.log ∧
      Represents s' (l.setChain p (c :: l.chain p)) := by
  have hkey : l.parent c = p := by
    rw [← h.key]
    exact hp
  have hnot : c ∉ l.chain (l.parent c) := by
    rw [← h.inMMContainer, hc]
    nofun
  have hhead : s.table (s.key c) ≠ some c := h.links.not_head (h.links.not_mem hnot _)
  have hnext : s.next c = none := h.links.rest c hnot
  have hlink := linkHead_eq hhead hnext
  rw [hp] at hlink
  rw [State.addChainedItem, hlink]
  dsimp only
  rw [if_neg (by rw [State.own]; exact Bool.not_eq_true _ ▸ hc)]
  refine ⟨_, rfl, rfl, h.key, h.links.push hnot hkey, marks_set h.hasChainedItem ?_, fun x => ?_,
    fun x => ?_, ?_, ?_, h.nullDereferenced⟩
  · exact ⟨fun _ => cons_ne_nil _ _, fun _ => rfl⟩
  · change update s.inMMContainer c true x = true ↔ _
    rw [mem_setChain]
    by_cases hx : x = c
    · rw [hx, update_self, if_pos hkey]
      exact ⟨fun _ => mem_cons_self, fun _ => rfl⟩
    · rw [update_of_ne hx, h.inMMContainer]
      split <;> rename_i hxp
      · rw [hxp, mem_cons, or_iff_right hx]
      · rfl
  · have hx := h.refCount x
    have hc' := h.refCount c
    simp only [State.release, State.decRef, State.setInMMContainer, State.own, State.incRef,
      State.markHasChainedItem, update_apply]
    split <;> rename_i hxc
    · rw [hc] at hc'
      simp only [if_true, Bool.toNat_true, Bool.toNat_false] at hc' ⊢
      omega
    · exact hx
  · have hcount := Threads.sum_update Bool.toNat s.hasChainedItem p true
    change (if s.hasChainedItem p then s.numChainedParentItems else s.numChainedParentItems + 1)
      = ∑ q, (update s.hasChainedItem p true q).toNat
    rw [h.parents]
    cases hp' : s.hasChainedItem p with
    | true =>
        rw [hp'] at hcount
        rw [if_pos rfl]
        exact (Nat.add_right_cancel hcount).symm
    | false =>
        rw [hp'] at hcount
        rw [if_neg nofun]
        exact hcount.symm
  · have hcount := Threads.sum_update Bool.toNat s.inMMContainer c true
    change s.numChainedChildItems + 1 = ∑ x, (update s.inMMContainer c true x).toNat
    rw [hc] at hcount
    rw [h.children]
    exact hcount.symm

theorem Represents.popChainedItem {xs : List Child} (h : Represents s l)
    (hchain : l.chain p = c :: xs) :
    ∃ s', s.popChainedItem p = (s', .handle c) ∧ s'.log = s.log ∧
      Represents s' (l.setChain p xs) := by
  have hpath := h.links.path p
  have hnodup := h.links.nodup p
  rw [hchain] at hpath
  rw [hchain, nodup_cons] at hnodup
  have hmark : s.hasChainedItem p = true := by
    rw [h.hasChainedItem, hchain]
    exact cons_ne_nil c xs
  have hmem : ∀ x ∈ c :: xs, s.key x = p := by
    intro x hx
    rw [h.key]
    exact h.links.parent p x (hchain ▸ hx)
  have hparent : l.parent c = p := h.key ▸ hmem c mem_cons_self
  have hc : s.inMMContainer c = true := by
    rw [h.inMMContainer, hparent, hchain]
    exact mem_cons_self
  have hsome : (s.next c).isSome = true ↔ xs ≠ [] := by
    cases xs with
    | nil => rw [show s.next c = none from hpath.2]; exact ⟨nofun, nofun⟩
    | cons n ys => rw [hpath.2.1]; exact ⟨nofun, fun _ => rfl⟩
  have hunlink : (s.acquire c).unlinkHead p c = _ :=
    unlinkHead_eq (hmem c mem_cons_self) hpath.1 hmark <| by
      intro n hn
      cases xs with
      | nil => exact nomatch hn.symm.trans hpath.2
      | cons m ys =>
          obtain rfl : m = n := Option.some.inj (hpath.2.1.symm.trans hn)
          refine ⟨hmem m (by simp), ?_⟩
          rintro rfl
          exact hnodup.1 mem_cons_self
  rw [State.popChainedItem, if_pos hmark, State.findChainedItem, hpath.1]
  dsimp only
  rw [hunlink]
  refine ⟨_, rfl, rfl, h.key, h.links.pop hchain, marks_set h.hasChainedItem hsome, fun x => ?_,
    fun x => ?_, ?_, ?_, h.nullDereferenced⟩
  · change update s.inMMContainer c false x = true ↔ _
    rw [mem_setChain]
    by_cases hx : x = c
    · rw [hx, update_self, if_pos hparent]
      exact ⟨nofun, fun hmem => absurd hmem hnodup.1⟩
    · rw [update_of_ne hx, h.inMMContainer]
      split <;> rename_i hxp
      · rw [hxp, hchain, mem_cons, or_iff_right hx]
      · rfl
  · have hx := h.refCount x
    have hc' := h.refCount c
    simp only [State.disown, State.decRef, State.setInMMContainer, State.acquire, State.incRef,
      State.setNext, update_apply]
    split <;> rename_i hxc
    · rw [hc] at hc'
      simp only [if_true, Bool.toNat_true, Bool.toNat_false] at hc' ⊢
      omega
    · exact hx
  · have hcount := Threads.sum_update Bool.toNat s.hasChainedItem p (s.next c).isSome
    change s.numChainedParentItems - (!(s.next c).isSome).toNat
      = ∑ q, (update s.hasChainedItem p (s.next c).isSome q).toNat
    rw [hmark, ← h.parents] at hcount
    cases hn : (s.next c).isSome <;> rw [hn] at hcount <;>
      simp only [Bool.toNat_true, Bool.toNat_false, Bool.not_true, Bool.not_false] at hcount ⊢ <;> omega
  · have hcount := Threads.sum_update Bool.toNat s.inMMContainer c false
    change s.numChainedChildItems - 1 = ∑ x, (update s.inMMContainer c false x).toNat
    rw [hc, ← h.children] at hcount
    simp only [Bool.toNat_true, Bool.toNat_false] at hcount
    omega

/-- The loop stops at the child in front of the old one. -/
theorem walk_to {next : Child → Option Child} {head : Option Child} {x old : Child}
    {front back : List Child} (hpath : Path next head (front ++ old :: back) none) (hold : old ∉ front)
    (hnodup : (front ++ old :: back).Nodup) :
    (walk next (· = old) (Fintype.card Child) (some x) head).1 = (x :: front).getLast? := by
  have hpassed : passed (· = old) (front ++ old :: back) = front := by
    rw [passed, takeWhile_append_of_pos]
    · rw [takeWhile_cons_of_neg (by simp), append_nil]
    · intro y hy
      simp only [Bool.not_eq_true', decide_eq_false_iff_not]
      rintro rfl
      exact hold hy
  rw [walk_eq hpath hnodup.length_le_card, hpassed, getLast?_cons]
  cases front.getLast? <;> rfl

omit [Fintype Parent] in
theorem replaceInChainLocked_eq {old new : Child} {front back : List Child}
    (hlinks : Links l s.next s.table) (hchain : l.chain p = front ++ old :: back)
    (hnew : new ∉ l.chain p) (hkey : s.key new = p) :
    s.replaceInChainLocked old new p = { s with
      next := update (update (setLink s.next front.getLast? (some new)) new
        (s.next old)) old none
      table := update s.table p (setHead (s.table p) front.getLast? (some new)) } := by
  have hpath := hlinks.path p
  have hnodup := hlinks.nodup p
  have hhead := hlinks.not_head hnew
  rw [hchain] at hpath hnodup
  have hold : old ∉ front := fun h =>
    disjoint_of_nodup_append hnodup h mem_cons_self
  rw [State.replaceInChainLocked, State.findChainedItem]
  cases front with
  | nil =>
      rw [hpath.1]
      dsimp only
      rw [if_pos rfl, insertOrReplace_eq (by rw [hkey]; exact hhead), hkey]
      rfl
  | cons x front =>
      have hx : x ≠ old := by
        rintro rfl
        exact hold mem_cons_self
      have hwalk := walk_to (x := x) hpath.2 (fun h => hold (mem_cons_of_mem x h))
        (nodup_cons.mp hnodup).2
      obtain ⟨y, hy⟩ : ∃ y, (x :: front).getLast? = some y := ⟨_, getLast?_cons⟩
      have hyold : old ≠ y := by
        rintro rfl
        exact hold (mem_of_getLast? hy)
      rw [hpath.1]
      dsimp only
      rw [if_neg hx]
      rcases hw : walk s.next (· = old) (Fintype.card Child) (some x) (s.next x) with ⟨prev, curr⟩
      rw [hw] at hwalk
      obtain rfl : prev = some y := hwalk.trans hy
      rw [hy, setHead, ← hpath.1, update_eq_self]
      simp only [State.setNext, setLink, update_of_ne hyold]

theorem Represents.replaceChainedItem {old new : Child} (h : Represents s l)
    (hparent : l.parent old = l.parent new) (hp : l.parent old = p) (hnew : new ∉ l.chain p)
    (hold : old ∈ l.chain p) (hhandle : 0 < s.handles new) :
    ∃ s', s.replaceChainedItem old new p = (s', .handle old) ∧ s'.log = s.log ∧
      Represents s' (l.setChain p (Lists.replaceIn old new (l.chain p))) := by
  have hpnew : l.parent new = p := hparent.symm.trans hp
  have hne : old ≠ new := by
    rintro rfl
    exact hnew hold
  have hmmOld : s.inMMContainer old = true := by
    rw [h.inMMContainer, hp]
    exact hold
  have hmmNew : s.inMMContainer new = false := by
    rw [← Bool.not_eq_true, h.inMMContainer, hpnew]
    exact hnew
  have hguard : ¬ (s.key old ≠ s.key new ∨ s.key old ≠ p ∨ s.inMMContainer new ∨
      !s.inMMContainer old) := by
    rw [h.key, hmmOld, hmmNew, hpnew, hp]
    simp
  obtain ⟨front, back, hchain⟩ := append_of_mem hold
  have hnodup := h.links.nodup p
  rw [hchain, nodup_middle, nodup_cons, mem_append, not_or] at hnodup
  have hreplace : (((s.acquire old).setInMMContainer old false).setInMMContainer new
      true).replaceInChainLocked old new p = _ :=
    replaceInChainLocked_eq (l := l) h.links hchain hnew (by rw [← hpnew, ← h.key]; rfl)
  rw [State.replaceChainedItem, if_neg hguard]
  dsimp only
  rw [hreplace, hchain, replaceIn_middle hnodup.1.1 hnodup.1.2]
  refine ⟨_, rfl, rfl, h.key, h.links.replace hchain hnew hpnew, fun q => ?_, fun x => ?_,
    fun x => ?_, h.parents, ?_, h.nullDereferenced⟩
  · change s.hasChainedItem q = true ↔ _
    rw [h.hasChainedItem]
    by_cases hq : q = p
    · rw [hq, setChain_self, hchain]
      simp
    · rw [setChain_of_ne l hq]
  · change update (update s.inMMContainer old false) new true x = true ↔ _
    rw [mem_setChain, perm_middle.mem_iff, mem_cons]
    by_cases hxn : x = new
    · rw [hxn, update_self, if_pos hpnew]
      simp
    rw [update_of_ne hxn]
    by_cases hxo : x = old
    · rw [hxo, update_self, if_pos hp, or_iff_right hne, mem_append]
      exact ⟨nofun, fun hx => (hx.elim hnodup.1.1 hnodup.1.2).elim⟩
    · rw [update_of_ne hxo, h.inMMContainer]
      split <;> rename_i hxp
      · rw [hxp, hchain, perm_middle.mem_iff, mem_cons, or_iff_right hxo, or_iff_right hxn]
      · rfl
  · have hx := h.refCount x
    have hold' := h.refCount old
    have hnew' := h.refCount new
    rw [hmmOld] at hold'
    rw [hmmNew] at hnew'
    simp only [State.release, State.decRef, State.incRef, State.acquire, State.setInMMContainer,
      update_apply]
    by_cases hxn : x = new
    · subst hxn
      simp only [if_true, if_neg hne.symm, Bool.toNat_true, Bool.toNat_false] at hnew' ⊢
      omega
    by_cases hxo : x = old
    · subst hxo
      simp only [if_true, if_neg hne, Bool.toNat_true, Bool.toNat_false] at hold' ⊢
      omega
    · simp only [if_neg hxn, if_neg hxo]
      exact hx
  · have hold' := Threads.sum_update Bool.toNat s.inMMContainer old false
    have hnew' := Threads.sum_update Bool.toNat (update s.inMMContainer old false) new true
    change s.numChainedChildItems
      = ∑ x, (update (update s.inMMContainer old false) new true x).toNat
    rw [hmmOld] at hold'
    rw [update_of_ne hne.symm, hmmNew] at hnew'
    rw [h.children]
    simp only [Bool.toNat_true, Bool.toNat_false] at hold' hnew'
    omega

omit [DecidableEq Parent] [Fintype Parent] [Fintype Child] in
theorem changeKeys_eq {xs : List Child} {n : ℕ} {head : Option Child} (hpath : Path s.next head xs none)
    (hn : xs.length ≤ n) (hnodup : xs.Nodup) (hnone : ∀ x ∈ xs, s.table (s.key x) = none) :
    State.changeKeys q n head s
      = some { s with key := fun c => if c ∈ xs then q else s.key c } := by
  induction n generalizing s head xs with
  | zero =>
      obtain rfl := eq_nil_of_length_eq_zero (Nat.le_zero.mp hn)
      rfl
  | succ n ih =>
      cases xs with
      | nil =>
          obtain rfl : head = none := hpath
          rfl
      | cons x xs =>
          obtain ⟨rfl, htail⟩ := hpath
          rw [nodup_cons] at hnodup
          have hx : s.isAccessible x = false := by
            rw [State.isAccessible, hnone x mem_cons_self]
            rfl
          have hother : ∀ y ∈ xs, update s.key x q y = s.key y := by
            intro y hy
            refine update_of_ne ?_ _ _
            rintro rfl
            exact hnodup.1 hy
          have hrest : ∀ y ∈ xs, s.table (update s.key x q y) = none := by
            intro y hy
            rw [hother y hy]
            exact hnone y (mem_cons_of_mem x hy)
          have hloop := ih (s := { s with key := update s.key x q }) htail
            (Nat.le_of_succ_le_succ hn) hnodup.2 hrest
          rw [State.changeKeys, hx, if_neg nofun, hloop]
          congr 2
          funext c
          dsimp only
          by_cases hc : c = x
          · rw [hc, update_self, ite_self, if_pos mem_cons_self]
          · simp only [update_of_ne hc, mem_cons, hc, false_or]

theorem Represents.transferChainAndReplace (h : Represents s l) (hq : l.chain q = [])
    (hp : l.chain p ≠ []) :
    ∃ s', s.transferChainAndReplace p q = (s', .done) ∧ s'.log = s.log ∧
      Represents s' (l.transfer p q) := by
  have hpq : q ≠ p := by
    rintro rfl
    exact hp hq
  have hmarkq : s.hasChainedItem q = false := by
    rw [← Bool.not_eq_true, h.hasChainedItem, not_not]
    exact hq
  have hmarkp : s.hasChainedItem p = true := (h.hasChainedItem p).mpr hp
  obtain ⟨c, xs, hchain⟩ := exists_cons_of_ne_nil hp
  have hpath := h.links.path p
  have hnodup := h.links.nodup p
  have hkey : ∀ x ∈ l.chain p, s.key x = p := by
    intro x hx
    rw [h.key]
    exact h.links.parent p x hx
  have hc : c ∈ l.chain p := by
    rw [hchain]
    exact mem_cons_self
  have hhead : s.table p = some c := by
    rw [hchain] at hpath
    exact hpath.1
  have hremove : s.remove c = { s with table := update s.table p none } := by
    rw [remove_eq (by rw [hkey c hc, hhead]), hkey c hc]
  rw [hhead] at hpath
  have hchange := changeKeys_eq (q := q) (s := { s with table := update s.table p none })
    hpath hnodup.length_le_card hnodup fun x hx => by
      change update s.table p none (s.key x) = none
      rw [hkey x hx, update_self]
  have htable : update s.table p none q = none := by
    rw [update_of_ne hpq]
    exact h.links.table_eq_none.mpr hq
  have hkeyc : (if c ∈ l.chain p then q else s.key c) = q := if_pos hc
  rw [State.transferChainAndReplace, hmarkq, if_neg nofun, State.findChainedItem, hhead]
  dsimp only
  rw [hremove, hchange]
  dsimp only
  rw [insertOrReplace_eq]
  · dsimp only [State.markHasChainedItem]
    rw [hkeyc, htable]
    refine ⟨_, rfl, rfl, ?_, ?_, fun r => ?_, fun x => ?_, h.refCount, ?_, h.children,
      h.nullDereferenced⟩
    · funext x
      change (if x ∈ l.chain p then q else s.key x) = if x ∈ l.chain p then q else l.parent x
      rw [h.key]
    · rw [← hhead]
      exact h.links.transfer hq hp
    · change update (update s.hasChainedItem q true) p false r = true ↔
        update (update l.chain p []) q (l.chain p) r ≠ []
      by_cases hrp : r = p
      · rw [hrp, update_self, update_of_ne hpq.symm, update_self]
        exact ⟨nofun, fun hnil => absurd rfl hnil⟩
      rw [update_of_ne hrp]
      by_cases hrq : r = q
      · rw [hrq, update_self, update_self]
        exact ⟨fun _ => hp, fun _ => rfl⟩
      · rw [update_of_ne hrq, update_of_ne hrq, update_of_ne hrp]
        exact h.hasChainedItem r
    · change s.inMMContainer x = true ↔ _
      rw [h.inMMContainer]
      exact (h.links.mem_transfer hq x).symm
    · have hfrom := Threads.sum_update Bool.toNat (update s.hasChainedItem q true) p false
      have hto := Threads.sum_update Bool.toNat s.hasChainedItem q true
      change s.numChainedParentItems
        = ∑ r, (update (update s.hasChainedItem q true) p false r).toNat
      rw [update_of_ne hpq.symm, hmarkp] at hfrom
      rw [hmarkq] at hto
      rw [h.parents]
      simp only [Bool.toNat_true, Bool.toNat_false] at hfrom hto
      omega
  · change update s.table p none (if c ∈ l.chain p then q else s.key c) ≠ some c
    rw [hkeyc, htable]
    nofun

omit [DecidableEq Parent] in
/-- A child that is not referred to is in no list. -/
theorem Represents.allocate (h : Represents s l) (hc : s.refCount c = 0) (p : Parent) :
    Represents ({ s with
      key := update s.key c p
      next := update s.next c none
      inMMContainer := update s.inMMContainer c false }.acquire c)
      { l with parent := update l.parent c p } := by
  have hcount := h.refCount c
  have hmm : s.inMMContainer c = false := by
    cases hmm : s.inMMContainer c with
    | false => rfl
    | true =>
        rw [hc, hmm] at hcount
        exact nomatch hcount
  have hnot : ∀ q, c ∉ l.chain q := h.links.not_mem (by rw [← h.inMMContainer, hmm]; nofun)
  have hne : ∀ q, ∀ x ∈ l.chain q, x ≠ c := by
    rintro q x hx rfl
    exact hnot q hx
  have hsame : update s.inMMContainer c false = s.inMMContainer := by
    rw [← hmm, update_eq_self]
  rw [hsame]
  refine Represents.acquire (s := { s with
    key := update s.key c p
    next := update s.next c none }) (l := { l with parent := update l.parent c p })
      ⟨?_, ⟨?_, ?_, h.links.nodup, ?_⟩, h.hasChainedItem, ?_,
      h.refCount, h.parents, h.children, h.nullDereferenced⟩ c
  · exact congrArg (update · c p) h.key
  · intro q
    exact (h.links.path q).congr fun x hx => update_of_ne (hne q x hx) _ _
  · intro q x hx
    exact (update_of_ne (hne q x hx) _ _).trans (h.links.parent q x hx)
  · intro x hx
    by_cases hxc : x = c
    · exact hxc ▸ update_self ..
    · dsimp only at hx ⊢
      rw [update_of_ne hxc] at hx ⊢
      exact h.links.rest x hx
  · intro x
    dsimp only
    by_cases hxc : x = c
    · rw [hxc]
      exact ⟨fun hx => (nomatch hmm.symm.trans hx), fun hx => absurd hx (hnot _)⟩
    · rw [update_of_ne hxc]
      exact h.inMMContainer x

/-! ## Steps -/

/-- A child is not in a chain when it is added to the chain of its parent, and a chain that is
transferred has children. -/
def proper (s : State Parent Child) : Label Parent Child → Bool
  | .call (.addChainedItem parent child) => s.key child = parent ∧ s.inMMContainer child = false
  | .call (.transferChainAndReplace parent newParent) =>
      s.hasChainedItem parent || s.hasChainedItem newParent
  | _ => true

/-- The count has 18 bits, and `incRef` throws when it is full, in `addChainedItem` and
`replaceChainedItem` with the child linked already. A call takes three references to a child at
most: if the head is replaced, the handle that is returned and those of `findChainedItem` and
`insertOrReplace`. -/
def countsFit (s : State Parent Child) : Bool := ∀ child, s.refCount child + 3 < 2 ^ 18

theorem Represents.run {call : Call Parent Child} (h : Represents s l)
    (hargument : ∀ child, call.argument = some child → 0 < s.handles child)
    (hproper : proper s (.call call) = true) :
    ∃ s', s.run call = (s', (call.apply l).2) ∧ s'.log = s.log ∧ Represents s' (call.apply l).1 := by
  cases call with
  | addChainedItem parent child =>
      obtain ⟨hkey, hnot⟩ := of_decide_eq_true hproper
      exact h.addChainedItem hkey hnot (hargument child rfl)
  | popChainedItem parent =>
      rw [Call.apply]
      cases hchain : l.chain parent with
      | nil =>
          refine ⟨s, if_neg ?_, rfl, h⟩
          rw [h.hasChainedItem, not_not]
          exact hchain
      | cons child xs => exact h.popChainedItem hchain
  | replaceChainedItem oldItem newItem parent =>
      rw [Call.apply]
      split <;> rename_i hguard
      · obtain ⟨hparent, hp, hnew, hold⟩ := hguard
        exact h.replaceChainedItem hparent hp hnew hold (hargument newItem rfl)
      · refine ⟨_, if_pos ?_, rfl, h.release (hargument newItem rfl)⟩
        by_contra hnot
        rw [h.key] at hnot
        push Not at hnot
        obtain ⟨hparent, hp, hnew, hold⟩ := hnot
        rw [Ne, Bool.not_eq_true', Bool.not_eq_false, h.inMMContainer, hp] at hold
        rw [Ne, h.inMMContainer, ← hparent, hp] at hnew
        exact hguard ⟨hparent, hp, hnew, hold⟩
  | transferChainAndReplace parent newParent =>
      rw [Call.apply]
      have hnew := h.hasChainedItem newParent
      split <;> rename_i hguard
      · rw [hguard] at hnew
        have hmark : s.hasChainedItem newParent = false := by
          rw [← Bool.not_eq_true, hnew]
          exact fun hne => hne rfl
        rw [proper, hmark, Bool.or_false, h.hasChainedItem] at hproper
        exact h.transferChainAndReplace hguard hproper
      · exact ⟨s, if_pos (hnew.mpr hguard), rfl, h⟩

/-- The state after a run is what the lists and the results are. -/
def Follows (parent : Child → Parent) (past : List (Label Parent Child))
    (s : State Parent Child) : Prop :=
  s.log = (replay parent past).2 ∧ Represents s (replay parent past).1

theorem Represents.step {label : Label Parent Child} (h : Represents s l)
    (hproper : proper s label = true) (hstep : ChainedItems.step s label = some s') :
    s'.log = (follow (l, s.log) label).2 ∧ Represents s' (follow (l, s.log) label).1 := by
  cases label with
  | allocate parent child =>
      rw [ChainedItems.step] at hstep
      split_ifs at hstep with hc
      obtain rfl := Option.some.inj hstep
      exact ⟨rfl, h.allocate hc parent⟩
  | acquire child =>
      rw [ChainedItems.step] at hstep
      split_ifs at hstep with hc
      obtain rfl := Option.some.inj hstep
      exact ⟨rfl, h.acquire child⟩
  | release child =>
      rw [ChainedItems.step] at hstep
      split_ifs at hstep with hc
      obtain rfl := Option.some.inj hstep
      exact ⟨rfl, h.release hc⟩
  | call call =>
      rw [ChainedItems.step] at hstep
      split_ifs at hstep with hargument
      obtain ⟨t, hrun, hlog, hrep⟩ := h.run hargument hproper
      rw [hrun] at hstep
      obtain rfl := Option.some.inj hstep
      refine ⟨congrArg ((call, (call.apply l).2) :: ·) hlog, ?_⟩
      exact ⟨hrep.key, hrep.links, hrep.hasChainedItem, hrep.inMMContainer, hrep.refCount,
        hrep.parents, hrep.children, hrep.nullDereferenced⟩

omit [DecidableEq Parent] [DecidableEq Child] in
theorem represents_new (key : Child → Parent) :
    Represents (State.new key : State Parent Child) ⟨fun _ => [], key⟩ where
  key := rfl
  links := ⟨fun _ => rfl, nofun, fun _ => nodup_nil, fun _ _ => rfl⟩
  hasChainedItem _ := ⟨nofun, fun h => absurd rfl h⟩
  inMMContainer _ := ⟨nofun, nofun⟩
  refCount _ := rfl
  parents := (Finset.sum_const_zero).symm
  children := (Finset.sum_const_zero).symm
  nullDereferenced := rfl

theorem follows_of_exec {key : Child → Parent} {labels : List (Label Parent Child)}
    (hrun : Transition.exec ChainedItems.step (.new key) labels = some s)
    (hproper : Transition.Along ChainedItems.step (fun s label => proper s label) (.new key) labels) :
    Follows key labels s := by
  have hkeep : ∀ past s label (t : State Parent Child), Follows key past s →
      proper s label = true → ChainedItems.step s label = some t → Follows key (past ++ [label]) t := by
    rintro past s label t ⟨hlog, hrep⟩ hproper hstep
    rw [Follows, replay, foldl_append]
    change t.log = (follow (replay key past) label).2 ∧ Represents t (follow (replay key past) label).1
    have hpair : replay key past = ((replay key past).1, s.log) := by rw [hlog]
    rw [hpair]
    exact hrep.step hproper hstep
  exact Transition.exec_invariant_history hkeep hrun hproper ⟨rfl, represents_new key⟩

/-! ## Refinement -/

/-- What a caller sees of the lists -/
structure Refines (s : State Parent Child) (l : Lists Parent Child) : Prop where
  chain : ∀ p, s.chain p = l.chain p
  hasChainedItem : ∀ p, s.hasChainedItem p = true ↔ l.chain p ≠ []
  key : ∀ p, ∀ c ∈ l.chain p, s.key c = p
  owner : ∀ p, ∀ c ∈ l.chain p, s.refCount c = s.handles c + 1
  parents : s.numChainedParentItems = Set.ncard { p | l.chain p ≠ [] }
  children : s.numChainedChildItems = Set.ncard { c | ∃ p, c ∈ l.chain p }
  nullDereferenced : s.nullDereferenced = false

omit [DecidableEq Parent] [DecidableEq Child] in
theorem Represents.refines (h : Represents s l) : Refines s l := by
  have hlinked : ∀ c, s.inMMContainer c = true ↔ ∃ p, c ∈ l.chain p := by
    intro c
    rw [h.inMMContainer]
    exact ⟨fun hc => ⟨_, hc⟩, fun ⟨p, hc⟩ => h.links.parent p c hc ▸ hc⟩
  constructor
  · intro p
    exact collect_eq (h.links.path p) (h.links.nodup p).length_le_card
  · exact h.hasChainedItem
  · intro p c hc
    rw [h.key]
    exact h.links.parent p c hc
  · intro p c hc
    rw [h.refCount, (hlinked c).mpr ⟨p, hc⟩]
    rfl
  · rw [h.parents, Threads.sum_toNat]
    simp only [h.hasChainedItem]
  · rw [h.children, Threads.sum_toNat]
    simp only [hlinked]
  · exact h.nullDereferenced

/-- In every run whose steps are proper and in which no count overflows, the chains are the lists
that the calls make, and each call returns what it returns on the lists. -/
theorem chains_of_exec {key : Child → Parent} {labels : List (Label Parent Child)}
    (hrun : Transition.exec ChainedItems.step (.new key) labels = some s)
    (hproper : Transition.Along ChainedItems.step (fun s label => proper s label ∧ countsFit s)
      (.new key) labels) :
    s.log = (replay key labels).2 ∧ Refines s (replay key labels).1 := by
  obtain ⟨hlog, hrep⟩ := follows_of_exec hrun (hproper.mono fun _ _ => And.left)
  exact ⟨hlog, hrep.refines⟩

end Calls

/-- Children 0 and 1 are added to parent 0 and go to parent 1, where child 2 takes the place of
child 0; child 1 is popped. -/
def transfers : List (Label (Fin 2) (Fin 3)) :=
  [.allocate 0 0, .allocate 0 1, .call (.addChainedItem 0 0), .call (.addChainedItem 0 1),
    .call (.transferChainAndReplace 0 1), .allocate 1 2, .call (.replaceChainedItem 0 2 1),
    .call (.popChainedItem 1)]

def chains {n m : ℕ} (s : State (Fin n) (Fin m)) : List (List (Fin m)) :=
  (finRange n).map s.chain

theorem chains_of_exec_transfers :
    ∃ s, Transition.exec step (.new fun _ => 0) transfers = some s ∧
      (chains s, s.numChainedParentItems, s.numChainedChildItems, s.log.map Prod.snd)
        = ([[], [2]], 1, 1, [.handle 1, .handle 0, .done, .done, .done]) ∧
      Refines s (replay (fun _ => 0) transfers).1 := by
  obtain ⟨s, hs, hfacts⟩ : ∃ s, Transition.exec step (.new fun _ => 0) transfers = some s ∧
      (chains s, s.numChainedParentItems, s.numChainedChildItems, s.log.map Prod.snd)
        = ([[], [2]], 1, 1, [.handle 1, .handle 0, .done, .done, .done]) := by
    decide +kernel
  exact ⟨s, hs, hfacts, (chains_of_exec hs (by decide +kernel)).2⟩

/-- A chain is transferred that has no children. -/
def transfersNothing : List (Label (Fin 2) (Fin 3)) :=
  [.call (.transferChainAndReplace 0 1)]

/-- Child 0 is added again, while child 1 leads to it. -/
def addsTwice : List (Label (Fin 2) (Fin 3)) :=
  [.allocate 0 0, .acquire 0, .allocate 0 1, .call (.addChainedItem 0 0),
    .call (.addChainedItem 0 1), .call (.addChainedItem 0 0)]

/-- The null pointer is dereferenced; and a chain of two children goes round and round, while the
call has thrown and three children are counted. -/
theorem chain_broken :
    (Transition.exec step (.new fun _ => 0) transfersNothing).map (fun s => s.nullDereferenced)
      = some true ∧
    (Transition.exec step (.new fun _ => 0) addsTwice).map
        (fun s => (s.next 0, s.next 1, s.numChainedChildItems, s.log.map Prod.snd))
      = some (some 1, some 0, 3, [.threw, .done, .done]) := by
  constructor <;> decide +kernel

end CacheLib.ChainedItems
