/-
`ChainedHashTable` (`cachelib/allocator/ChainedHashTable.h`): buckets of chained
nodes, and the order in which its iterator visits them.

A caller that wants to resume an iteration has nothing but a key to resume from, so
what matters is how the visiting order changes under the operations. `NotAfter c k`
is the statement that survives: `k` comes after `c`, or would if `c` were there. It
is kept by every operation that leaves `k` in the table, also by those that take `c`
out and put it back, and while both keys are there it is the visiting order
(`pair_sublist_order_iff`).
-/
import Mathlib.Order.Fin.Basic
import CacheLib.Lib.ListOrder

set_option autoImplicit false

namespace CacheLib.ChainedHashTable

open ListOrder List

variable {κ ν : Type}

/-! ## One bucket -/

section Bucket

variable [DecidableEq κ]

def findInBucket (key : κ) : List (κ × ν) → Option ν
  | [] => none
  | curr :: chain => if curr.1 = key then some curr.2 else findInBucket key chain

/-- `insertInBucket`: nothing happens if the key is there, otherwise the node
becomes the head. -/
def insertInBucket (key : κ) (node : ν) (chain : List (κ × ν)) : List (κ × ν) × Bool :=
  match findInBucket key chain with
  | some _ => (chain, false)
  | none => ((key, node) :: chain, true)

/-- The chain with the node of this key replaced where it is. -/
def relink (key : κ) (node : ν) : List (κ × ν) → List (κ × ν)
  | [] => []
  | curr :: chain => if curr.1 = key then (key, node) :: chain else curr :: relink key node chain

/-- `insertOrReplaceInBucket`, with the node it replaced. -/
def insertOrReplaceInBucket (key : κ) (node : ν) (chain : List (κ × ν)) :
    List (κ × ν) × Option ν :=
  match findInBucket key chain with
  | some curr => (relink key node chain, some curr)
  | none => ((key, node) :: chain, none)

def removeFromBucket (key : κ) (chain : List (κ × ν)) : List (κ × ν) :=
  chain.eraseP fun curr => curr.1 = key

theorem findInBucket_eq_none_iff {key : κ} {chain : List (κ × ν)} :
    findInBucket key chain = none ↔ key ∉ chain.map Prod.fst := by
  induction chain with
  | nil => simp [findInBucket]
  | cons curr chain ih =>
      unfold findInBucket
      split_ifs with h
      · simp [h]
      · rw [ih, map_cons, mem_cons, not_or]
        exact ⟨fun hc => ⟨fun he => h he.symm, hc⟩, And.right⟩

theorem map_fst_relink (key : κ) (node : ν) (chain : List (κ × ν)) :
    (relink key node chain).map Prod.fst = chain.map Prod.fst := by
  induction chain with
  | nil => rfl
  | cons curr chain ih =>
      unfold relink
      split_ifs with h
      · simp [h]
      · simp [ih]

/-- The keys of a chain after an insertion, whether or not it may replace. -/
theorem map_fst_insertOrReplaceInBucket (key : κ) (node : ν) (chain : List (κ × ν)) :
    (insertOrReplaceInBucket key node chain).1.map Prod.fst
      = if key ∈ chain.map Prod.fst then chain.map Prod.fst else key :: chain.map Prod.fst := by
  unfold insertOrReplaceInBucket
  rcases hfind : findInBucket key chain with _ | curr
  · rw [if_neg (findInBucket_eq_none_iff.mp hfind)]
    rfl
  · rw [if_pos, map_fst_relink]
    by_contra hnot
    rw [findInBucket_eq_none_iff.mpr hnot] at hfind
    exact absurd hfind (by simp)

theorem map_fst_insertInBucket (key : κ) (node : ν) (chain : List (κ × ν)) :
    (insertInBucket key node chain).1.map Prod.fst
      = if key ∈ chain.map Prod.fst then chain.map Prod.fst else key :: chain.map Prod.fst := by
  unfold insertInBucket
  rcases hfind : findInBucket key chain with _ | curr
  · rw [if_neg (findInBucket_eq_none_iff.mp hfind)]
    rfl
  · rw [if_pos]
    by_contra hnot
    rw [findInBucket_eq_none_iff.mpr hnot] at hfind
    exact absurd hfind (by simp)

theorem map_fst_removeFromBucket (key : κ) (chain : List (κ × ν)) :
    (removeFromBucket key chain).map Prod.fst = (chain.map Prod.fst).erase key := by
  unfold removeFromBucket
  induction chain with
  | nil => rfl
  | cons curr chain ih =>
      by_cases h : curr.1 = key
      · rw [eraseP_cons_of_pos (by simpa using h), map_cons, h, erase_cons_head]
      · rw [eraseP_cons_of_neg (by simpa using h), map_cons, map_cons, ih,
          erase_cons_tail (by simpa using h)]

end Bucket

/-! ## The table -/

/-- The table: a chain for each bucket, every node in the bucket its key hashes
to, no key twice. -/
structure Container (ν : Type) {n : ℕ} (getBucket : κ → Fin n) where
  chain : Fin n → List (κ × ν)
  getBucket_eq : ∀ b, ∀ key ∈ (chain b).map Prod.fst, getBucket key = b
  nodup : ∀ b, ((chain b).map Prod.fst).Nodup

namespace Container

variable {n : ℕ} {getBucket : κ → Fin n} (t : Container ν getBucket)

/-- The keys of a bucket, from the head of its chain. -/
def keysAt (b : Fin n) : List κ := (t.chain b).map Prod.fst

/-- The nodes in the order in which an iterator from `begin()` to `end()` visits
them. -/
def iterate : List (κ × ν) := (finRange n).flatMap t.chain

/-- The keys in that order. -/
def order : List κ := (finRange n).flatMap t.keysAt

/-! ## The visiting order -/

theorem map_fst_iterate : t.iterate.map Prod.fst = t.order := by
  unfold iterate order
  rw [map_flatMap]
  rfl

variable {t} in
theorem mem_order {key : κ} : key ∈ t.order ↔ key ∈ t.keysAt (getBucket key) := by
  unfold order
  rw [mem_flatMap]
  constructor
  · rintro ⟨b, _, hmem⟩
    rw [t.getBucket_eq b key hmem]
    exact hmem
  · exact fun hmem => ⟨getBucket key, mem_finRange _, hmem⟩

/-- Visited in this order: an earlier bucket, or earlier in the chain of the same. -/
theorem order_pairwise :
    t.order.Pairwise fun x y => getBucket x < getBucket y ∨
      (getBucket x = getBucket y ∧ [x, y] <+ t.keysAt (getBucket y)) := by
  unfold order
  refine pairwise_flatMap.mpr ⟨fun b _ => ?_, ?_⟩
  · refine pairwise_iff_forall_sublist.mpr fun {x y} hsub => Or.inr ?_
    have hx := t.getBucket_eq b x (left_mem_of_pair_sublist hsub)
    have hy := t.getBucket_eq b y (right_mem_of_pair_sublist hsub)
    rw [hx, hy]
    exact ⟨rfl, hsub⟩
  · refine (pairwise_lt_finRange n).imp fun {b b'} hlt => ?_
    intro x hx y hy
    rw [t.getBucket_eq b x hx, t.getBucket_eq b' y hy]
    exact Or.inl hlt

theorem order_nodup : t.order.Nodup := by
  refine nodup_iff_pairwise_ne.mpr (pairwise_iff_forall_sublist.mpr ?_)
  rintro x y hsub rfl
  rcases pairwise_iff_forall_sublist.mp t.order_pairwise hsub with hlt | ⟨_, hsub'⟩
  · exact absurd hlt (lt_irrefl _)
  · exact pair_sublist_asymm (t.nodup _) hsub' hsub'

/-- `k` comes after `c`, or would if `c` were in the table. -/
def NotAfter (c k : κ) : Prop :=
  getBucket c < getBucket k ∨
    (getBucket c = getBucket k ∧
      (c ∈ t.keysAt (getBucket k) → [c, k] <+ t.keysAt (getBucket k)))

variable {t} in
/-- While both keys are there, `NotAfter` is the visiting order. -/
theorem pair_sublist_order_iff {c k : κ} (hc : c ∈ t.order) (hk : k ∈ t.order) (hne : c ≠ k) :
    [c, k] <+ t.order ↔ NotAfter t c k := by
  constructor
  · intro hsub
    rcases pairwise_iff_forall_sublist.mp t.order_pairwise hsub with hlt | ⟨heq, hsub'⟩
    · exact Or.inl hlt
    · exact Or.inr ⟨heq, fun _ => hsub'⟩
  · intro hnot
    rcases pair_sublist_total hc hk hne with h | h
    · exact h
    -- the other order contradicts `NotAfter`
    exfalso
    rcases pairwise_iff_forall_sublist.mp t.order_pairwise h with hlt | ⟨heq, hsub⟩
    · rcases hnot with hlt' | ⟨heq', _⟩
      · exact absurd hlt (lt_asymm hlt')
      · exact absurd heq' (ne_of_gt hlt)
    · rcases hnot with hlt' | ⟨_, hbefore⟩
      · exact absurd heq (ne_of_gt hlt')
      · have hck : [c, k] <+ t.keysAt (getBucket k) :=
          hbefore (heq ▸ right_mem_of_pair_sublist hsub)
        exact pair_sublist_asymm (t.nodup _) hck (heq ▸ hsub)

/-! ## The operations -/

/-- An empty table. -/
def empty : Container ν getBucket where
  chain _ := []
  getBucket_eq := by intro b key hkey; simp at hkey
  nodup := by intro b; simp

/-- The table with the chain of one key's bucket rewritten. -/
def rewriteBucket (key : κ) (chain : List (κ × ν))
    (hkeys : ∀ k ∈ chain.map Prod.fst, getBucket k = getBucket key)
    (hnodup : (chain.map Prod.fst).Nodup) : Container ν getBucket where
  chain := Function.update t.chain (getBucket key) chain
  getBucket_eq := by
    intro b k hk
    by_cases hb : b = getBucket key
    · subst hb
      rw [Function.update_self] at hk
      exact hkeys k hk
    · rw [Function.update_of_ne hb] at hk
      exact t.getBucket_eq b k hk
  nodup := by
    intro b
    by_cases hb : b = getBucket key
    · subst hb
      rw [Function.update_self]
      exact hnodup
    · rw [Function.update_of_ne hb]
      exact t.nodup b

theorem keysAt_rewriteBucket {key : κ} {chain : List (κ × ν)}
    {hkeys : ∀ k ∈ chain.map Prod.fst, getBucket k = getBucket key}
    {hnodup : (chain.map Prod.fst).Nodup} (b : Fin n) :
    (t.rewriteBucket key chain hkeys hnodup).keysAt b
      = if b = getBucket key then chain.map Prod.fst else t.keysAt b := by
  unfold keysAt rewriteBucket
  by_cases hb : b = getBucket key
  · subst hb
    simp
  · simp [hb]

section Operations

variable [DecidableEq κ] (t : Container ν getBucket)

/-- The keys of a chain with a key put at its head unless it is there. -/
theorem insertKey_ok (key : κ) :
    (∀ k ∈ (if key ∈ t.keysAt (getBucket key) then t.keysAt (getBucket key)
        else key :: t.keysAt (getBucket key)), getBucket k = getBucket key) ∧
    (if key ∈ t.keysAt (getBucket key) then t.keysAt (getBucket key)
        else key :: t.keysAt (getBucket key)).Nodup := by
  have hold := t.getBucket_eq (getBucket key)
  have hnodup := t.nodup (getBucket key)
  split_ifs with h
  · exact ⟨hold, hnodup⟩
  · refine ⟨fun k hk => ?_, nodup_cons.mpr ⟨h, hnodup⟩⟩
    rcases mem_cons.mp hk with rfl | hk
    · rfl
    · exact hold k hk

/-- `Container::insert` -/
def insert (key : κ) (node : ν) : Container ν getBucket :=
  t.rewriteBucket key (insertInBucket key node (t.chain (getBucket key))).1
    (by rw [map_fst_insertInBucket]; exact (t.insertKey_ok key).1)
    (by rw [map_fst_insertInBucket]; exact (t.insertKey_ok key).2)

/-- `Container::insertOrReplace` -/
def insertOrReplace (key : κ) (node : ν) : Container ν getBucket :=
  t.rewriteBucket key (insertOrReplaceInBucket key node (t.chain (getBucket key))).1
    (by rw [map_fst_insertOrReplaceInBucket]; exact (t.insertKey_ok key).1)
    (by rw [map_fst_insertOrReplaceInBucket]; exact (t.insertKey_ok key).2)

/-- `Container::remove` -/
def remove (key : κ) : Container ν getBucket :=
  t.rewriteBucket key (removeFromBucket key (t.chain (getBucket key)))
    (by
      rw [map_fst_removeFromBucket]
      exact fun k hk => t.getBucket_eq _ k (mem_of_mem_erase hk))
    (by
      rw [map_fst_removeFromBucket]
      exact (t.nodup _).erase key)

/-- What either insertion does to the keys of a bucket. -/
def InsertsKey (t t' : Container ν getBucket) (key : κ) : Prop :=
  ∀ b, t'.keysAt b
    = if b = getBucket key ∧ key ∉ t.keysAt b then key :: t.keysAt b else t.keysAt b

variable {t} in
theorem insertsKey_of_keysAt {t' : Container ν getBucket} {key : κ}
    (h : ∀ b, t'.keysAt b = if b = getBucket key then
      (if key ∈ t.keysAt (getBucket key) then t.keysAt (getBucket key)
        else key :: t.keysAt (getBucket key)) else t.keysAt b) : InsertsKey t t' key := by
  intro b
  rw [h]
  by_cases hb : b = getBucket key
  · subst hb
    by_cases hk : key ∈ t.keysAt (getBucket key)
    · simp [hk]
    · simp [hk]
  · simp [hb]

theorem insertsKey_insert (key : κ) (node : ν) :
    InsertsKey t (t.insert key node) key := by
  refine insertsKey_of_keysAt fun b => ?_
  unfold insert
  rw [keysAt_rewriteBucket, map_fst_insertInBucket]
  rfl

theorem insertsKey_insertOrReplace (key : κ) (node : ν) :
    InsertsKey t (t.insertOrReplace key node) key := by
  refine insertsKey_of_keysAt fun b => ?_
  unfold insertOrReplace
  rw [keysAt_rewriteBucket, map_fst_insertOrReplaceInBucket]
  rfl

theorem keysAt_remove (key : κ) (b : Fin n) :
    (t.remove key).keysAt b = (t.keysAt b).erase key := by
  unfold remove
  rw [keysAt_rewriteBucket, map_fst_removeFromBucket]
  split_ifs with hb
  · rw [hb]
    rfl
  · -- the key is in no other bucket
    rw [erase_of_not_mem]
    intro hmem
    exact hb (t.getBucket_eq b key hmem).symm

variable {t}

/-- An insertion keeps `NotAfter` for a key that is there: a new node goes in front. -/
theorem NotAfter.of_insertsKey {t' : Container ν getBucket} {c k key : κ} (h : NotAfter t c k)
    (hk : k ∈ t.order) (hins : InsertsKey t t' key) : NotAfter t' c k := by
  rcases h with hlt | ⟨heq, hbefore⟩
  · exact Or.inl hlt
  refine Or.inr ⟨heq, fun hc => ?_⟩
  rw [hins] at hc ⊢
  split_ifs at hc ⊢ with hnew
  · rw [pair_sublist_cons_iff]
    rcases mem_cons.mp hc with rfl | hc
    · exact Or.inr ⟨rfl, mem_order.mp hk⟩
    · exact Or.inl (hbefore hc)
  · exact hbefore hc

theorem NotAfter.insert {c k : κ} (h : NotAfter t c k) (hk : k ∈ t.order) (key : κ) (node : ν) :
    NotAfter (t.insert key node) c k :=
  h.of_insertsKey hk (insertsKey_insert t key node)

theorem NotAfter.insertOrReplace {c k : κ} (h : NotAfter t c k) (hk : k ∈ t.order) (key : κ)
    (node : ν) : NotAfter (t.insertOrReplace key node) c k :=
  h.of_insertsKey hk (insertsKey_insertOrReplace t key node)

/-- A removal keeps it for a key that stays. -/
theorem NotAfter.remove {c k : κ} (h : NotAfter t c k) (key : κ)
    (hk : k ∈ (t.remove key).order) : NotAfter (t.remove key) c k := by
  rcases h with hlt | ⟨heq, hbefore⟩
  · exact Or.inl hlt
  refine Or.inr ⟨heq, fun hc => ?_⟩
  rw [mem_order] at hk
  rw [keysAt_remove] at hk hc ⊢
  have hnodup := t.nodup (getBucket k)
  have hkey : k ≠ key := ((Nodup.mem_erase_iff hnodup).mp hk).1
  obtain ⟨hckey, hc⟩ := (Nodup.mem_erase_iff hnodup).mp hc
  have hsub := (hbefore hc).erase key
  rwa [erase_of_not_mem] at hsub
  simp only [mem_cons, not_mem_nil, or_false, not_or]
  exact ⟨hckey.symm, hkey.symm⟩

end Operations

end Container

end CacheLib.ChainedHashTable
