/-
`CacheManager::scan`: paging through the keys of the cache.

A page is one pass of the hash table's iterator. It skips everything up to and
including the cursor, which is the last key of the page before, then collects
keys that match until it has enough of them, and says whether anything followed.
Between two pages the table may change.

That the cursor key has to be there is the weak point. A page that does not find its
cursor skips to the end of the table, returns nothing and says that there is no more.
What `std::regex` does with the text `matchesPattern` builds is a parameter.
-/
import CacheLib.Lib.Run
import CacheLib.Allocator.ChainedHashTable
import CacheLib.Server.CacheManager

set_option autoImplicit false

namespace CacheLib.Server

open ListOrder ChainedHashTable Transition
open scoped List

/-- Keys of cached items; the cache refuses an empty one. -/
abbrev Key := { k : Bytes // k ≠ [] }

/-! ## Matching -/

/-- The regular expression for one byte of a glob pattern. -/
def regexOfByte (c : UInt8) : Bytes :=
  if c = 42 then [46, 42]  -- '*' is ".*"
  else if c = 63 then [46]  -- '?' is "."
  else if c ∈ [46, 91, 93, 40, 41, 123, 125, 43, 94, 36, 124, 92] then [92, c]  -- escaped
  else [c]

def matchesPattern (regex : Bytes → Bytes → Option Bool) (pattern key : Bytes) : Bool :=
  if pattern.isEmpty || pattern == [42] then true
  else match regex (pattern.flatMap regexOfByte) key with
    | some result => result
    | none =>
        -- `regex_error`: prefix matching if the pattern ends in a star
        if pattern.getLast? == some 42 then
          key.take (pattern.length - 1) == pattern.take (pattern.length - 1)
        else key == pattern

/-! ## One page -/

structure KeyInfo where
  key : Key
  ttlRemaining : Int64
  sizeBytes : ℕ

structure ScanResult where
  keys : List Key := []
  nextCursor : Bytes := []
  hasMore : Bool := false
  keyDetails : List KeyInfo := []

/-- The arguments of a page besides pattern and cursor, and the clock readings it
makes, one per key with details. -/
structure PageArgs where
  count : Int32
  includeDetails : Bool
  clock : Key → UInt32

/-- `count` as the page uses it: 100 if it is not positive, 10000 at most. -/
def pageCount (count : Int32) : ℕ :=
  let count := if count ≤ 0 then 100 else count
  let count := if count > 10000 then 10000 else count
  count.toInt.toNat

/-- A matching key is put on the page. -/
def ScanResult.push (result : ScanResult) (args : PageArgs) (key : Key) (item : Item) :
    ScanResult :=
  { result with
    keys := result.keys ++ [key]
    keyDetails :=
      if args.includeDetails then
        result.keyDetails ++ [⟨key, CacheManager.ttlRemaining item (args.clock key),
          item.value.length⟩]
      else result.keyDetails }

/-- The loop of `scan` over what the iterator has left to visit. -/
def scanLoop (isMatch : Bytes → Bool) (cursor : Bytes) (args : PageArgs) :
    List (Key × Item) → (pastCursor : Bool) → (matched : ℕ) → ScanResult → ScanResult
  | [], _, _, result => result
  | (key, item) :: rest, pastCursor, matched, result =>
      if !pastCursor then
        scanLoop isMatch cursor args rest (key.val == cursor) matched result
      else if isMatch key.val then
        let result := result.push args key item
        if matched + 1 ≥ pageCount args.count then
          -- `++it`, and there is more if that is not the end
          if rest.isEmpty then result
          else { result with hasMore := true, nextCursor := key.val }
        else scanLoop isMatch cursor args rest pastCursor (matched + 1) result
      else scanLoop isMatch cursor args rest pastCursor matched result

section Table

variable {n : ℕ} {getBucket : Key → Fin n}

def CacheManager.scan (m : CacheManager) (table : Container Item getBucket)
    (regex : Bytes → Bytes → Option Bool) (pattern cursor : Bytes) (args : PageArgs) :
    ScanResult :=
  if !m.ready then {}
  else scanLoop (matchesPattern regex pattern) cursor args table.iterate cursor.isEmpty 0 {}

/-! ## A scan -/

/-- A scan under way. -/
structure ScanSession (getBucket : Key → Fin n) where
  table : Container Item getBucket
  cursor : Bytes
  hasMore : Bool
  returned : List Key

def ScanSession.start (table : Container Item getBucket) : ScanSession getBucket :=
  { table, cursor := [], hasMore := true, returned := [] }

/-- The next page is asked for, or the table changes. -/
inductive ScanStep where
  | page (args : PageArgs)
  | insert (key : Key) (item : Item)
  | insertOrReplace (key : Key) (item : Item)
  | remove (key : Key)

/-- One step of a scan; a page is asked for as long as there is more. -/
def scanStep (m : CacheManager) (regex : Bytes → Bytes → Option Bool) (pattern : Bytes)
    (s : ScanSession getBucket) : ScanStep → Option (ScanSession getBucket)
  | .page args =>
      if s.hasMore then
        let result := m.scan s.table regex pattern s.cursor args
        some { s with cursor := result.nextCursor, hasMore := result.hasMore,
                      returned := s.returned ++ result.keys }
      else none
  | .insert key item => some { s with table := s.table.insert key item }
  | .insertOrReplace key item => some { s with table := s.table.insertOrReplace key item }
  | .remove key => some { s with table := s.table.remove key }

/-- A page that has a cursor finds it in the table. -/
def Resumable (s : ScanSession getBucket) : ScanStep → Prop
  | .page _ => s.cursor = [] ∨ ∃ key ∈ s.table.order, key.val = s.cursor
  | _ => True

/-! ## What a page returns -/

/-- What of the visiting order a page with this cursor looks at. -/
def restKeys (table : Container Item getBucket) (cursor : Bytes) : List Key :=
  if h : cursor ≠ [] then after ⟨cursor, h⟩ table.order else table.order

/-- The outcome of a page over the keys `rest` it looks at. -/
def PageOutcome (isMatch : Bytes → Bool) (rest : List Key) (before result : ScanResult) : Prop :=
  (result.hasMore = before.hasMore ∧
    result.keys = before.keys ++ rest.filter fun key => isMatch key.val) ∨
  (result.hasMore = true ∧ ∃ l₁ c l₂, rest = l₁ ++ c :: l₂ ∧ result.nextCursor = c.val ∧
    result.keys = before.keys ++ (l₁ ++ [c]).filter fun key => isMatch key.val)

/-- The loop once it is past the cursor. -/
theorem scanLoop_pastCursor (isMatch : Bytes → Bool) (cursor : Bytes) (args : PageArgs)
    (l : List (Key × Item)) (matched : ℕ) (result : ScanResult) :
    PageOutcome isMatch (l.map Prod.fst) result
      (scanLoop isMatch cursor args l true matched result) := by
  induction l generalizing matched result with
  | nil => exact Or.inl ⟨rfl, by simp [scanLoop]⟩
  | cons e l ih =>
      obtain ⟨key, item⟩ := e
      by_cases hmatch : isMatch key.val = true
      · by_cases hfull : matched + 1 ≥ pageCount args.count
        · by_cases hlast : l.isEmpty = true
          · -- the page is full with the last key of the table
            left
            have hl : l = [] := List.isEmpty_iff.mp hlast
            simp [scanLoop, hmatch, hfull, hl, ScanResult.push]
          · right
            refine ⟨by simp [scanLoop, hmatch, hfull, hlast], [], key, l.map Prod.fst, rfl, ?_, ?_⟩
            · simp [scanLoop, hmatch, hfull, hlast]
            · simp [scanLoop, hmatch, hfull, hlast, ScanResult.push]
        · have hloop : scanLoop isMatch cursor args ((key, item) :: l) true matched result
              = scanLoop isMatch cursor args l true (matched + 1)
                (result.push args key item) := by
            simp [scanLoop, hmatch, hfull]
          rw [hloop]
          rcases ih (matched + 1) (result.push args key item) with
            ⟨hmore, hkeys⟩ | ⟨hmore, l₁, c, l₂, hsplit, hcursor, hkeys⟩
          · exact Or.inl ⟨hmore, by rw [hkeys]; simp [ScanResult.push, hmatch]⟩
          · refine Or.inr ⟨hmore, key :: l₁, c, l₂, by simp [hsplit], hcursor, ?_⟩
            rw [hkeys]
            simp [ScanResult.push, hmatch]
      · have hloop : scanLoop isMatch cursor args ((key, item) :: l) true matched result
            = scanLoop isMatch cursor args l true matched result := by
          simp [scanLoop, hmatch]
        rw [hloop]
        rcases ih matched result with
          ⟨hmore, hkeys⟩ | ⟨hmore, l₁, c, l₂, hsplit, hcursor, hkeys⟩
        · exact Or.inl ⟨hmore, by rw [hkeys]; simp [hmatch]⟩
        · refine Or.inr ⟨hmore, key :: l₁, c, l₂, by simp [hsplit], hcursor, ?_⟩
          rw [hkeys]
          simp [hmatch]

/-- Before the cursor nothing but the cursor counts. -/
theorem scanLoop_skip (isMatch : Bytes → Bool) {cursor : Bytes} (hcursor : cursor ≠ [])
    (args : PageArgs) (l : List (Key × Item)) (matched : ℕ) (result : ScanResult) :
    PageOutcome isMatch (after ⟨cursor, hcursor⟩ (l.map Prod.fst)) result
      (scanLoop isMatch cursor args l false matched result) := by
  induction l with
  | nil => exact Or.inl ⟨rfl, by simp [scanLoop, after]⟩
  | cons e l ih =>
      obtain ⟨key, item⟩ := e
      by_cases hkey : key.val = cursor
      · -- At the cursor itself: nothing is returned yet, and from here on everything counts.
        have hafter : after ⟨cursor, hcursor⟩ (((key, item) :: l).map Prod.fst)
            = l.map Prod.fst := by
          have : key = ⟨cursor, hcursor⟩ := Subtype.ext hkey
          rw [← this]
          exact after_append_cons (show key ∉ ([] : List Key) by simp)
        have hloop : scanLoop isMatch cursor args ((key, item) :: l) false matched result
            = scanLoop isMatch cursor args l true matched result := by
          simp [scanLoop, hkey]
        rw [hafter, hloop]
        exact scanLoop_pastCursor isMatch cursor args l matched result
      · have hne : key ≠ ⟨cursor, hcursor⟩ := fun h => hkey (congrArg Subtype.val h)
        have hafter : after ⟨cursor, hcursor⟩ (((key, item) :: l).map Prod.fst)
            = after ⟨cursor, hcursor⟩ (l.map Prod.fst) := by
          unfold after
          rw [List.map_cons, List.dropWhile_cons_of_pos (by simpa using hne)]
        have hbeq : (key.val == cursor) = false := by simpa using hkey
        have hloop : scanLoop isMatch cursor args ((key, item) :: l) false matched result
            = scanLoop isMatch cursor args l false matched result := by
          simp [scanLoop, hbeq]
        rw [hafter, hloop]
        exact ih

section Session

variable {m : CacheManager} {regex : Bytes → Bytes → Option Bool} {pattern : Bytes}
  {s t : ScanSession getBucket}

/-- **What a page returns**, in terms of the visiting order behind the cursor. -/
theorem scan_outcome (hready : m.ready = true) (regex : Bytes → Bytes → Option Bool)
    (pattern : Bytes) (table : Container Item getBucket) (cursor : Bytes) (args : PageArgs) :
    PageOutcome (matchesPattern regex pattern) (restKeys table cursor) {}
      (m.scan table regex pattern cursor args) := by
  unfold CacheManager.scan restKeys
  rw [hready, ← table.map_fst_iterate]
  by_cases hcursor : cursor ≠ []
  · rw [dif_pos hcursor]
    have : cursor.isEmpty = false := by simpa using hcursor
    rw [this]
    exact scanLoop_skip _ hcursor args _ _ _
  · rw [dif_neg hcursor]
    have : cursor.isEmpty = true := by simpa using hcursor
    rw [this]
    exact scanLoop_pastCursor _ _ _ _ _ _

theorem restKeys_suffix (table : Container Item getBucket) (cursor : Bytes) :
    restKeys table cursor <:+ table.order := by
  unfold restKeys
  split_ifs
  · exact after_suffix _ _
  · exact List.suffix_rfl

/-- What the next page will look at if this one stops at `c`. -/
theorem restKeys_of_split {table : Container Item getBucket} {cursor : Bytes} {l₁ l₂ : List Key}
    {c : Key} (hsplit : restKeys table cursor = l₁ ++ c :: l₂) : restKeys table c.val = l₂ := by
  obtain ⟨pre, hpre⟩ := restKeys_suffix table cursor
  have horder : table.order = (pre ++ l₁) ++ c :: l₂ := by
    rw [← hpre, hsplit, List.append_assoc]
  have hnodup := table.order_nodup
  unfold restKeys
  rw [dif_pos c.property, horder]
  refine after_append_cons fun hmem => ?_
  rw [horder, List.nodup_append] at hnodup
  exact hnodup.2.2 c hmem c List.mem_cons_self rfl

/-! ## No key that stays is missed -/

/-- The key is behind the cursor. -/
def Ahead (s : ScanSession getBucket) (key : Key) : Prop :=
  ∀ h : s.cursor ≠ [], (⟨s.cursor, h⟩ : Key) ≠ key ∧ s.table.NotAfter ⟨s.cursor, h⟩ key

/-- What is kept for a key: it has been returned, or the scan goes on and, as long
as the key is there, it is still ahead. -/
def Covered (key : Key) (s : ScanSession getBucket) : Prop :=
  key ∈ s.returned ∨ (s.hasMore = true ∧ (key ∈ s.table.order → Ahead s key))

/-- A key that is ahead is among what the page looks at. -/
theorem mem_restKeys_of_ahead {args : PageArgs} {key : Key} (hres : Resumable s (.page args))
    (hkey : key ∈ s.table.order) (hahead : Ahead s key) :
    key ∈ restKeys s.table s.cursor := by
  unfold restKeys
  split_ifs with hcursor
  · obtain ⟨hne, hnot⟩ := hahead hcursor
    have hpresent : (⟨s.cursor, hcursor⟩ : Key) ∈ s.table.order := by
      rcases hres with hempty | ⟨c, hc, hval⟩
      · exact absurd hempty hcursor
      · rwa [show (⟨s.cursor, hcursor⟩ : Key) = c from Subtype.ext hval.symm]
    rw [mem_after_iff, Container.pair_sublist_order_iff hpresent hkey hne]
    exact hnot
  · exact hkey

theorem covered_page (hready : m.ready = true) {args : PageArgs} {key : Key}
    (hmatch : matchesPattern regex pattern key.val = true) (hcov : Covered key s)
    (hres : Resumable s (.page args)) (hkey : key ∈ s.table.order)
    (h : scanStep m regex pattern s (.page args) = some t) : Covered key t := by
  simp only [scanStep] at h
  split_ifs at h
  injection h with h
  subst h
  rcases hcov with hreturned | ⟨_, hahead⟩
  · exact Or.inl (List.mem_append_left _ hreturned)
  have hrest := mem_restKeys_of_ahead hres hkey (hahead hkey)
  rcases scan_outcome hready regex pattern s.table s.cursor args with
    ⟨_, hkeys⟩ | ⟨hmore, l₁, c, l₂, hsplit, hcursor, hkeys⟩
  · left
    rw [hkeys]
    exact List.mem_append_right _ (by simp [hrest, hmatch])
  · rw [hsplit] at hrest
    rcases List.mem_append.mp hrest with hmem | hmem
    · left
      rw [hkeys]
      exact List.mem_append_right _ (by simp [hmem, hmatch])
    rcases List.mem_cons.mp hmem with rfl | hmem
    · left
      rw [hkeys]
      exact List.mem_append_right _ (by simp [hmatch])
    · -- the key is behind the new cursor `c`
      right
      refine ⟨hmore, fun _ hne => ?_⟩
      have hc : (⟨_, hne⟩ : Key) = c := Subtype.ext hcursor
      simp only [hc]
      have hbefore : [c, key] <+ s.table.order := by
        rw [← mem_after_iff]
        have := restKeys_of_split hsplit
        unfold restKeys at this
        rw [dif_pos c.property] at this
        rw [this]
        exact hmem
      have hck : c ≠ key := by
        rintro rfl
        exact pair_sublist_asymm s.table.order_nodup hbefore hbefore
      exact ⟨hck, (Container.pair_sublist_order_iff (left_mem_of_pair_sublist hbefore) hkey hck).mp
        hbefore⟩

/-- A change that keeps `NotAfter` for the key keeps it covered. -/
theorem covered_change {key : Key} {table : Container Item getBucket} (hcov : Covered key s)
    (hkey : key ∈ s.table.order)
    (hnot : key ∈ table.order → ∀ c, s.table.NotAfter c key → table.NotAfter c key) :
    Covered key { s with table := table } := by
  rcases hcov with hreturned | ⟨hmore, hahead⟩
  · exact Or.inl hreturned
  · refine Or.inr ⟨hmore, fun hstays hcursor => ?_⟩
    obtain ⟨hne, hold⟩ := hahead hkey hcursor
    exact ⟨hne, hnot hstays _ hold⟩

/-- **A step keeps every matching key that is there covered.** -/
theorem covered_step (hready : m.ready = true) {key : Key}
    (hmatch : matchesPattern regex pattern key.val = true) (l : ScanStep) (hcov : Covered key s)
    (hC : Resumable s l ∧ key ∈ s.table.order) (h : scanStep m regex pattern s l = some t) :
    Covered key t := by
  obtain ⟨hres, hkey⟩ := hC
  cases l with
  | page args => exact covered_page hready hmatch hcov hres hkey h
  | insert k item =>
      injection h with h
      subst h
      exact covered_change hcov hkey fun _ c hc => hc.insert hkey k item
  | insertOrReplace k item =>
      injection h with h
      subst h
      exact covered_change hcov hkey fun _ c hc => hc.insertOrReplace hkey k item
  | remove k =>
      injection h with h
      subst h
      exact covered_change hcov hkey fun hstays c hc => hc.remove k hstays

/-! ## Without changes the scan ends -/

/-- Each page that says there is more has moved the cursor on. -/
theorem pages_end (m : CacheManager) (regex : Bytes → Bytes → Option Bool) (pattern : Bytes)
    (s : ScanSession getBucket) (args : ℕ → PageArgs) :
    ∃ k ≤ (restKeys s.table s.cursor).length + 1, ∃ t,
      exec (scanStep m regex pattern) s ((List.range k).map fun i => .page (args i)) = some t ∧
      t.hasMore = false := by
  -- By induction on the keys that are left behind the cursor.
  induction hlen : (restKeys s.table s.cursor).length using Nat.strong_induction_on
    generalizing s args with
  | _ len ih =>
      by_cases hmore : s.hasMore = true
      case neg => exact ⟨0, by omega, s, rfl, by simpa using hmore⟩
      obtain ⟨t, ht⟩ : ∃ t, scanStep m regex pattern s (.page (args 0)) = some t := by
        simp only [scanStep, hmore, if_true]
        exact ⟨_, rfl⟩
      have hone : exec (scanStep m regex pattern) s [.page (args 0)] = some t := by
        simp [exec, ht]
      by_cases hstop : t.hasMore = true
      case neg => exact ⟨1, by omega, t, hone, by simpa using hstop⟩
      simp only [scanStep, hmore, if_true, Option.some.injEq] at ht
      have hready : m.ready = true := by
        by_contra hnot
        rw [← ht] at hstop
        simp [CacheManager.scan, hnot] at hstop
      rcases scan_outcome hready regex pattern s.table s.cursor (args 0) with
        ⟨hno, _⟩ | ⟨_, l₁, c, l₂, hsplit, hcursor, _⟩
      · rw [← ht] at hstop
        exact absurd (hno.symm.trans hstop) (by simp)
      have hrest : restKeys t.table t.cursor = l₂ := by
        rw [← ht]
        simp only [hcursor]
        exact restKeys_of_split hsplit
      -- The page has passed at least the key that is the new cursor.
      have hshorter : l₂.length < len := by
        rw [← hlen, hsplit]
        simp
        omega
      obtain ⟨k, hk, u, hu, hdone⟩ := ih l₂.length hshorter t (fun i => args (i + 1)) (by rw [hrest])
      refine ⟨k + 1, by omega, u, ?_, hdone⟩
      rw [List.range_succ_eq_map, List.map_cons, List.map_map]
      have hone' : scanStep m regex pattern s (.page (args 0)) = some t := by
        simpa [exec] using hone
      exact exec_cons_eq_some.mpr ⟨t, hone', hu⟩

end Session

/-- **What a scan is for.** If every page finds its cursor in the table, then a
scan that has ended has returned every matching key that stayed in the table; and
from any point on, without further changes, it ends within one page more than
there are keys. -/
theorem scan_complete (m : CacheManager) (hready : m.ready = true)
    (regex : Bytes → Bytes → Option Bool) (pattern : Bytes) (table : Container Item getBucket)
    (ls : List ScanStep) (s : ScanSession getBucket)
    (hrun : exec (scanStep m regex pattern) (.start table) ls = some s)
    (hres : Along (scanStep m regex pattern) Resumable (.start table) ls) :
    (s.hasMore = false → ∀ key : Key, matchesPattern regex pattern key.val = true →
      Along (scanStep m regex pattern) (fun t _ => key ∈ t.table.order) (.start table) ls →
      key ∈ s.returned) ∧
    (∀ args : ℕ → PageArgs, ∃ k ≤ s.table.order.length + 1, ∃ t,
      exec (scanStep m regex pattern) s ((List.range k).map fun i => .page (args i)) = some t ∧
      t.hasMore = false) := by
  constructor
  · intro hdone key hmatch hstays
    -- At the start every key of the table is still to come.
    have hstart : Covered key (ScanSession.start table) :=
      Or.inr ⟨rfl, fun _ hcursor => absurd rfl hcursor⟩
    have hstep : ∀ (u : ScanSession getBucket) (l : ScanStep) (v : ScanSession getBucket),
        Covered key u → (Resumable u l ∧ key ∈ u.table.order) →
        scanStep m regex pattern u l = some v → Covered key v :=
      fun _ l _ hcov hC hv => covered_step hready hmatch l hcov hC hv
    have hcov := exec_invariant_along hstep hrun (hres.and hstays) hstart
    rcases hcov with hreturned | ⟨hmore, _⟩
    · exact hreturned
    · rw [hdone] at hmore
      exact absurd hmore (by simp)
  · intro args
    obtain ⟨k, hk, t, ht, hdone⟩ := pages_end m regex pattern s args
    have := (restKeys_suffix s.table s.cursor).length_le
    exact ⟨k, by omega, t, ht, hdone⟩

end Table

/-- A key of one byte. -/
def letter (b : UInt8) : Key := ⟨[b], List.cons_ne_nil b []⟩

theorem neZero_one : NeZero 1 := ⟨Nat.one_ne_zero⟩

attribute [local instance] neZero_one

/-- Three keys in the one bucket of a small table, visited as `c`, `b`, `a`. -/
def smallTable : Container Item fun _ : Key => (0 : Fin 1) :=
  ((Container.empty.insertOrReplace (letter 97) ⟨[], 0⟩).insertOrReplace
    (letter 98) ⟨[], 0⟩).insertOrReplace (letter 99) ⟨[], 0⟩

/-- Pages of one key. -/
def onePerPage : PageArgs := { count := 1, includeDetails := false, clock := fun _ => 0 }

/-- The second key is replaced between the first two pages, and every page finds
its cursor. -/
def calmScan : List ScanStep :=
  [.page onePerPage, .insertOrReplace (letter 98) ⟨[120], 0⟩, .page onePerPage,
    .page onePerPage]

theorem resumable_calmScan :
    Along (scanStep { ready := true } (fun _ _ => none) []) Resumable (.start smallTable)
      calmScan := by
  refine ⟨Or.inl rfl, ?_⟩
  rintro _ ⟨⟩
  refine ⟨trivial, ?_⟩
  rintro _ ⟨⟩
  refine ⟨Or.inr (by decide), ?_⟩
  rintro _ ⟨⟩
  exact ⟨Or.inr (by decide), fun _ _ => trivial⟩

theorem stays_calmScan :
    Along (scanStep { ready := true } (fun _ _ => none) [])
      (fun t _ => letter 97 ∈ t.table.order) (.start smallTable) calmScan := by
  refine ⟨by decide, ?_⟩
  rintro _ ⟨⟩
  refine ⟨by decide, ?_⟩
  rintro _ ⟨⟩
  refine ⟨by decide, ?_⟩
  rintro _ ⟨⟩
  exact ⟨by decide, fun _ _ => trivial⟩

theorem scan_complete_calmScan :
    ∃ s : ScanSession fun _ : Key => (0 : Fin 1),
      exec (scanStep { ready := true } (fun _ _ => none) []) (.start smallTable) calmScan = some s ∧
      letter 97 ∈ s.returned := by
  obtain ⟨s, hrun, hdone⟩ : ∃ s : ScanSession fun _ : Key => (0 : Fin 1),
      exec (scanStep { ready := true } (fun _ _ => none) []) (.start smallTable) calmScan = some s ∧
      s.hasMore = false := ⟨_, rfl, rfl⟩
  exact ⟨s, hrun, (scan_complete _ rfl _ _ _ _ _ hrun resumable_calmScan).1 hdone _ rfl
    stays_calmScan⟩

/-- **The lost cursor.** The first page returns `c`; `c` is removed; the second
page does not find its cursor, returns nothing and says that there is no more.
`a` and `b` match, were there all the time, and are never returned. -/
theorem scan_loses_keys :
    ∃ s : ScanSession fun _ : Key => (0 : Fin 1),
      exec (scanStep { ready := true } (fun _ _ => none) []) (.start smallTable)
        [.page onePerPage, .remove (letter 99), .page onePerPage] = some s ∧
      s.hasMore = false ∧
      matchesPattern (fun _ _ => none) [] [97] = true ∧
      Along (scanStep { ready := true } (fun _ _ => none) [])
        (fun t _ => letter 97 ∈ t.table.order) (.start smallTable)
        [.page onePerPage, .remove (letter 99), .page onePerPage] ∧
      letter 97 ∈ s.table.order ∧
      letter 97 ∉ s.returned := by
  refine ⟨_, rfl, rfl, rfl, ?_, by decide, by decide⟩
  refine ⟨by decide, ?_⟩
  rintro _ ⟨⟩
  refine ⟨by decide, ?_⟩
  rintro _ ⟨⟩
  exact ⟨by decide, fun _ _ => trivial⟩

end CacheLib.Server
