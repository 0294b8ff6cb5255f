/-
No request and no rehash pass accesses a chunk that has been released, and no index is computed for
a table of zero chunks, as long as resizes are steady.

Resizes are not steady where `callBucketFn` tests the count for zero before it has its token, so
that a resize to zero may come between the test and the load of the count; where `resize` reads the
count before it has the lock, so that another resize may come in between; and where
`allocator_.resize()` reads the configured size again, which may be below the count that is in use
by then. A callback that throws may leave a new count announced for good, and `getChunk` reads
vectors that may be assigned to.
-/
import CacheLib.CompactCache.ResizeWindows

set_option autoImplicit false

namespace CacheLib.CompactCache

open List Option State Shared Transition

open Threads (total replaceAt)

/-! ## Steps of a resize -/

section Resizes

variable {Key : Type} {cfg : Config Key} {s : State Key} {shared : Shared} {pc : ResizePc}
  {next : Option ResizePc} {choice : Choice Key}

/-- A step of the resize, in general -/
theorem Safe.resize (h : Safe s) {s' : State Key} (hthreads : s'.threads = s.threads)
    (hzero : s'.zeroIndexed = false) (haccessed : s'.accessedReleased = false)
    (hrefs : s'.refs = s.refs) (hnodup : s'.kept.Nodup)
    (hlive : ∀ chunk ∈ s'.kept, chunk ∉ s'.released ∧ chunk < s'.nextChunk)
    (hpast : ∀ chunk ∈ s'.released, chunk < s'.nextChunk)
    (hsame : s'.kept.take s'.numChunks = s'.chunks.take s'.numChunks)
    (hcount : s'.numChunks ≤ s'.kept.length) (hnum : s'.numChunks = s'.phase.numChunks)
    (hpending : s'.pendingNumChunks = s'.phase.pending)
    (htested : s'.numChunks = 0 → s.numChunks = 0 ∨ ∀ t ∈ s.threads, t.tested = false)
    (hwindow : ∀ top w, s.window top = some w → s.refs top ≠ 0 → ∃ w', s'.window top = some w' ∧
      w.bound ≤ w'.bound ∧ (w.dbl = true → w'.dbl = true) ∧
      s'.chunks.take w.bound = s.chunks.take w.bound)
    (hvector : ∀ call top pc index, .request call top pc ∈ s.threads → pc.reads = some index →
      s'.vector index = s.vector index)
    (hsizes : ∀ pc, s'.resizer = some pc → pc.Sizes s'.chunks.length)
    (hholds : ∀ pc, s'.resizer = some pc → pc.Holds s'.toShared) : Safe s' := by
  refine ⟨hzero, haccessed, ?_, hnodup, hlive, hpast, hsame, hcount, hnum, hpending, ?_, ?_, hsizes,
    hholds⟩
  · rw [hrefs, hthreads]
    exact h.refs
  · rw [hthreads]
    intro hzero'
    rcases htested hzero' with hzero | htested
    · exact h.tested hzero
    · exact htested
  · rw [hthreads]
    intro call top pc hmem
    obtain ⟨w, hw, hok⟩ := h.requests call top pc hmem
    -- The request has a reference, so its cohort has a window still.
    have hpos : s.refs top ≠ 0 := by
      have hle : (Thread.request call top pc).holds top ≤ s.refs top := by
        rw [h.refs top]
        exact Threads.le_total (f := (·.holds top)) hmem
      rw [Thread.holds, Thread.cohort, if_pos rfl] at hle
      omega
    obtain ⟨w', hw', hbound, hdbl, hchunks⟩ := hwindow top w hw hpos
    exact ⟨w', hw', hok.mono hbound hdbl hchunks (fun index => hvector call top pc index hmem)⟩

theorem kept_eq (hpc : s.resizer = some pc) (hpublishes : pc.publishes = none) :
    s.kept = s.chunks := by
  rw [kept, hpc, bind_some, hpublishes, getD_none]

/-- The resize changes counts or the cohort, and not the vectors. -/
theorem Safe.advance (h : Safe s) (hpc : s.resizer = some pc) (hpublishes : pc.publishes = none)
    (top : Bool) (n m : ℕ) (next : ResizePc) (hnext : next.publishes = none)
    (hcount : n ≤ s.chunks.length) (hnum : n = next.phase.numChunks)
    (hpending : m = next.phase.pending)
    (htested : n = 0 → s.numChunks = 0 ∨ ∀ t ∈ s.threads, t.tested = false)
    (hwindow : ∀ b w, s.window b = some w → s.refs b ≠ 0 →
      ∃ w', (if b = top then some next.phase.window else next.phase.other) = some w' ∧
        w.bound ≤ w'.bound ∧ (w.dbl = true → w'.dbl = true))
    (hsizes : next.Sizes s.chunks.length)
    (hholds : next.Holds { s.toShared with top := top, numChunks := n, pendingNumChunks := m }) :
    Safe { s with top := top, numChunks := n, pendingNumChunks := m, resizer := some next } := by
  have hkept : kept { s with
      top := top, numChunks := n, pendingNumChunks := m, resizer := some next } = s.chunks :=
    kept_eq rfl hnext
  have hnodup := h.nodup
  have hlive := h.live
  rw [kept_eq hpc hpublishes] at hnodup hlive
  apply Safe.resize h
  · rfl
  · exact h.zeroIndexed
  · exact h.accessedReleased
  · rfl
  · rw [hkept]
    exact hnodup
  · rw [hkept]
    exact hlive
  · exact h.past
  · rw [hkept]
  · rw [hkept]
    exact hcount
  · exact hnum
  · exact hpending
  · exact htested
  · intro b w hw hrefs
    obtain ⟨w', hw', hbound, hdbl⟩ := hwindow b w hw hrefs
    exact ⟨w', hw', hbound, hdbl, rfl⟩
  · exact fun _ _ _ _ _ _ => rfl
  · rintro _ ⟨⟩
    exact hsizes
  · rintro _ ⟨⟩
    exact hholds

/-- Only the current cohort has requests, and their window gets no smaller. -/
theorem window_stays (hpc : s.resizer = some pc) (next : Phase)
    (hother : pc.phase.other = none ∨ s.refs (!s.top) = 0)
    (hbound : pc.phase.window.bound ≤ next.window.bound)
    (hdbl : pc.phase.window.dbl = true → next.window.dbl = true) (top : Bool) (w : Window)
    (hw : s.window top = some w) (hrefs : s.refs top ≠ 0) :
    ∃ w', (if top = s.top then some next.window else next.other) = some w' ∧
      w.bound ≤ w'.bound ∧ (w.dbl = true → w'.dbl = true) := by
  rw [window, phase, hpc] at hw
  by_cases htop : top = s.top
  · rw [if_pos htop, some.injEq] at hw
    subst hw
    exact ⟨next.window, if_pos htop, hbound, hdbl⟩
  · rw [if_neg htop] at hw
    rcases hother with hother | hother
    · cases hother.symm.trans hw
    · rw [Bool.eq_not_of_ne htop] at hrefs
      exact absurd hother hrefs

/-- The window of the current cohort becomes that of the other one. -/
theorem window_switch (hpc : s.resizer = some pc) {next : Phase} (hother : pc.phase.other = none)
    (hnext : next.other = some pc.phase.window) (top : Bool) (w : Window)
    (hw : s.window top = some w) (_ : s.refs top ≠ 0) :
    ∃ w', (if top = !s.top then some next.window else next.other) = some w' ∧
      w.bound ≤ w'.bound ∧ (w.dbl = true → w'.dbl = true) := by
  rw [window, phase, hpc] at hw
  by_cases htop : top = s.top
  · rw [if_pos htop, some.injEq] at hw
    subst hw htop
    exact ⟨pc.phase.window, by rw [if_neg (by simp), hnext], le_refl _, id⟩
  · rw [if_neg htop] at hw
    cases hother.symm.trans hw

/-- What `allocator_.resize()` is going to publish keeps the chunks that are in use, and nothing in
it is released. -/
structure Publishes (s : State Key) (released : List ℕ) (nextChunk : ℕ) (chunks : List ℕ) : Prop where
  nodup : chunks.Nodup
  live : ∀ chunk ∈ chunks, chunk ∉ released ∧ chunk < nextChunk
  past : ∀ chunk ∈ released, chunk < nextChunk
  same : chunks.take s.numChunks = s.chunks.take s.numChunks
  count : s.numChunks ≤ chunks.length

theorem Safe.allocatorResize (h : Safe s) (hkept : s.kept = s.chunks)
    (hcount : s.numChunks ≤ s.configured) {chunks : List ℕ}
    (hstep : s.toShared.allocatorResize choice = some (shared, chunks)) :
    ∃ released nextChunk,
      shared = { s.toShared with released := released, nextChunk := nextChunk } ∧
        Publishes s released nextChunk chunks := by
  have hnodup := h.nodup
  have hlive := h.live
  have hlength := h.count
  rw [hkept] at hnodup hlive hlength
  unfold Shared.allocatorResize at hstep
  split at hstep
  · -- Chunks are released from the end of the vector.
    obtain ⟨rfl, rfl⟩ := hstep
    refine ⟨_, _, rfl, hnodup.sublist (take_sublist _ _), ?_, ?_, ?_, ?_⟩
    · intro chunk hchunk
      obtain ⟨hreleased, hlt⟩ := hlive chunk (mem_of_mem_take hchunk)
      refine ⟨?_, hlt⟩
      rw [mem_append, not_or]
      refine ⟨?_, hreleased⟩
      rw [← take_append_drop s.configured s.chunks] at hnodup
      exact fun hdrop => (nodup_append.mp hnodup).2.2 chunk hchunk chunk hdrop rfl
    · intro chunk hchunk
      rcases mem_append.mp hchunk with hchunk | hchunk
      · exact (hlive chunk (mem_of_mem_drop hchunk)).2
      · exact h.past chunk hchunk
    · rw [take_take, Nat.min_eq_left hcount]
    · rw [length_take]
      omega
  · split at hstep
    · -- New chunks are added at its end.
      rename_i n
      rw [ite_none_right_eq_some] at hstep
      obtain ⟨-, hstep⟩ := hstep
      obtain ⟨rfl, rfl⟩ := hstep
      have hfresh : ∀ chunk ∈ (range n).map (s.nextChunk + ·),
          s.nextChunk ≤ chunk ∧ chunk < s.nextChunk + n := by
        intro chunk hchunk
        obtain ⟨k, hk, rfl⟩ := mem_map.mp hchunk
        have := mem_range.mp hk
        omega
      refine ⟨_, _, rfl, ?_, ?_, ?_, ?_, ?_⟩
      · rw [nodup_append]
        refine ⟨hnodup, nodup_range.map (fun a b hab => by omega), ?_⟩
        rintro a ha _ hb rfl
        have hlt := (hlive a ha).2
        have hle := (hfresh a hb).1
        omega
      · intro chunk hchunk
        rcases mem_append.mp hchunk with hchunk | hchunk
        · obtain ⟨hreleased, hlt⟩ := hlive chunk hchunk
          exact ⟨hreleased, Nat.lt_add_right n hlt⟩
        · obtain ⟨hle, hlt⟩ := hfresh chunk hchunk
          refine ⟨fun hreleased => ?_, hlt⟩
          have := h.past chunk hreleased
          omega
      · intro chunk hchunk
        exact Nat.lt_add_right n (h.past chunk hchunk)
      · exact take_append_of_le_length hlength
      · rw [length_append]
        omega
    · exact nomatch hstep

theorem Safe.allocate (h : Safe s) (hpc : s.resizer = some pc) {released chunks : List ℕ}
    {nextChunk : ℕ} (hpublishes : Publishes s released nextChunk chunks) {next : ResizePc}
    (hphase : next.phase = pc.phase) (hnext : next.publishes = some chunks)
    (hsizes : next.Sizes s.chunks.length) (hholds : ∀ shared, next.Holds shared) :
    Safe { s with released := released, nextChunk := nextChunk, resizer := some next } := by
  obtain ⟨hnodup, hlive, hpast, hsame, hcount⟩ := hpublishes
  have hkept : kept { s with released := released, nextChunk := nextChunk, resizer := some next }
      = chunks := by
    rw [kept, bind_some, hnext, getD_some]
  have hphase' : phase { s with released := released, nextChunk := nextChunk, resizer := some next }
      = s.phase := by
    unfold phase
    rw [hpc]
    exact hphase
  apply Safe.resize h
  · rfl
  · exact h.zeroIndexed
  · exact h.accessedReleased
  · rfl
  · rw [hkept]
    exact hnodup
  · rw [hkept]
    exact hlive
  · exact hpast
  · rw [hkept]
    exact hsame
  · rw [hkept]
    exact hcount
  · rw [hphase']
    exact h.numChunks
  · rw [hphase']
    exact h.pending
  · exact Or.inl
  · intro top w hw _
    refine ⟨w, ?_, le_refl _, id, rfl⟩
    rw [window, hphase']
    exact hw
  · exact fun _ _ _ _ _ _ => rfl
  · rintro _ ⟨⟩
    exact hsizes
  · rintro _ ⟨⟩
    exact hholds _

/-- The resize changes no more than the vectors. -/
theorem Safe.publish (h : Safe s) {current : Bool} {chunks spare : List ℕ}
    (hphase : phase { s with current := current, chunks := chunks, spare := spare, resizer := next }
      = s.phase)
    (hkept : kept { s with current := current, chunks := chunks, spare := spare, resizer := next }
      = s.kept)
    (hchunks : chunks = s.chunks ∨ chunks = s.kept)
    (hvector : ∀ call top pc index, .request call top pc ∈ s.threads → pc.reads = some index →
      (if index = current then chunks else spare) = s.vector index)
    (hsizes : ∀ pc, next = some pc → pc.Sizes chunks.length)
    (hholds : ∀ pc, next = some pc →
      pc.Holds { s.toShared with current := current, chunks := chunks, spare := spare }) :
    Safe { s with current := current, chunks := chunks, spare := spare, resizer := next } := by
  have htake : ∀ {n}, s.kept.take n = s.chunks.take n →
      s.kept.take n = chunks.take n ∧ chunks.take n = s.chunks.take n := by
    intro n hsame
    rcases hchunks with rfl | rfl
    · exact ⟨hsame, rfl⟩
    · exact ⟨rfl, hsame⟩
  apply Safe.resize h
  · rfl
  · exact h.zeroIndexed
  · exact h.accessedReleased
  · rfl
  · rw [hkept]
    exact h.nodup
  · rw [hkept]
    exact h.live
  · exact h.past
  · rw [hkept]
    exact (htake h.same).1
  · rw [hkept]
    exact h.count
  · rw [hphase]
    exact h.numChunks
  · rw [hphase]
    exact h.pending
  · exact Or.inl
  · intro top w hw _
    refine ⟨w, ?_, le_refl _, id, (htake (h.window_fits hw).2.2).2⟩
    rw [window, hphase]
    exact hw
  · exact hvector
  · exact hsizes
  · exact hholds

/-- The resize is over, or goes on with the vectors as they are. -/
theorem Safe.leave (h : Safe s) (hkept : s.kept = s.chunks)
    (hphase : phase { s with resizer := next } = s.phase)
    (hnext : next.bind ResizePc.publishes = none)
    (hsizes : ∀ pc, next = some pc → pc.Sizes s.chunks.length)
    (hholds : ∀ pc, next = some pc → pc.Holds s.toShared) : Safe { s with resizer := next } := by
  refine h.publish hphase ?_ (Or.inl rfl) (fun _ _ _ _ _ _ => rfl) hsizes hholds
  rw [hkept, kept, hnext, getD_none]

/-- The other vector is written to while nobody has its index in hand. -/
theorem Safe.overwrite (h : Safe s) (hpc : s.resizer = some pc)
    (hreads : ∀ t ∈ s.threads, t.reads ≠ some (!s.current)) (spare : List ℕ) {next : ResizePc}
    (hphase : next.phase = pc.phase) (hnext : next.publishes = pc.publishes)
    (hsizes : next.Sizes s.chunks.length) (hholds : next.Holds { s.toShared with spare := spare }) :
    Safe { s with spare := spare, resizer := some next } := by
  refine h.publish ?_ ?_ (Or.inl rfl) ?_ ?_ ?_
  · rw [phase, phase, hpc]
    exact hphase
  · rw [kept, kept, hpc, bind_some, bind_some, hnext]
  · intro call top pc index hmem hindex
    have hne : index ≠ !s.current := fun heq => hreads _ hmem (hindex.trans (congrArg some heq))
    have hcurrent : index = s.current := by simpa using Bool.eq_not_of_ne hne
    rw [vector, if_pos hcurrent, if_pos hcurrent]
  · rintro _ ⟨⟩
    exact hsizes
  · rintro _ ⟨⟩
    exact hholds

/-- The vectors change places, and the one that has been assigned to is the current one. -/
theorem Safe.flip (h : Safe s) (hpc : s.resizer = some pc) {chunks : List ℕ}
    (hpublishes : pc.publishes = some chunks) (hspare : s.spare = chunks)
    (hphase : phase { s with toShared := s.toShared.publish chunks .flip, resizer := next } = s.phase)
    (hnext : next.bind ResizePc.publishes = none)
    (hsizes : ∀ pc, next = some pc → pc.Sizes chunks.length)
    (hholds : ∀ pc, next = some pc → pc.Holds (s.toShared.publish chunks .flip)) :
    Safe { s with toShared := s.toShared.publish chunks .flip, resizer := next } := by
  have hkept : s.kept = chunks := by
    rw [kept, hpc, bind_some, hpublishes, getD_some]
  refine h.publish hphase ?_ (Or.inr (hspare.trans hkept.symm)) ?_ ?_ hholds
  · rw [kept, hnext, getD_none, hkept]
    exact hspare
  · intro call top pc index _ _
    cases index <;> cases hcurrent : s.current <;> simp [vector, hcurrent]
  · rw [← hspare] at hsizes
    exact hsizes

/-- A step of the rehasher, which changes nothing -/
theorem Safe.rehash_on (h : Safe s) (hpc : s.resizer = some pc) (hpublishes : pc.publishes = none)
    (next : ResizePc) (hnext : next.publishes = none) (hphase : next.phase = pc.phase)
    (hsizes : next.Sizes s.chunks.length) (hholds : next.Holds s.toShared) :
    Safe { s with resizer := some next } := by
  refine h.leave (kept_eq hpc hpublishes) ?_ hnext ?_ ?_
  · rw [phase, phase, hpc]
    exact hphase
  · rintro _ ⟨⟩
    exact hsizes
  · rintro _ ⟨⟩
    exact hholds

/-- The requests from before the switch are gone, and their window is closed. -/
theorem Safe.drain (h : Safe s) {old new : ℕ} {stage : Stage} {top : Bool}
    (hpc : s.resizer = some (.drain old new stage top)) (hrefs : s.refs top = 0) :
    Safe { s with resizer := some (afterSwitch old new stage) } := by
  obtain ⟨hold, hnew, hpos⟩ := h.sizes _ hpc
  have htop : top = !s.top := h.holds _ hpc
  have hnum := h.numChunks
  have hpending := h.pending
  have hcount := h.count
  rw [phase, hpc] at hnum hpending
  rw [kept_eq hpc rfl] at hcount
  rw [htop] at hrefs
  cases stage with
  | announced =>
      exact h.advance hpc rfl _ _ _ (.rehash old new .copy 0) rfl hcount hnum hpending Or.inl
        (window_stays hpc _ (Or.inr hrefs) (le_refl _) id) ⟨hold, hnew, hpos (by simp)⟩ trivial
  | moved =>
      exact h.advance hpc rfl _ _ _ (.clearPending old new) rfl hcount hnum hpending Or.inl
        (window_stays hpc _ (Or.inr hrefs) (le_refl _) id) ⟨hold, hnew, hpos (by simp)⟩ trivial
  | cleared =>
      exact h.advance hpc rfl _ _ _ (.rehash old new .delete 0) rfl hcount hnum hpending Or.inl
        (window_stays hpc _ (Or.inr hrefs) (le_refl _) id) ⟨hold, hnew, hpos (by simp)⟩ trivial
  | zero =>
      exact h.advance hpc rfl _ _ _ (.shrink old new) rfl hcount hnum hpending Or.inl
        (window_stays hpc _ (Or.inr hrefs) (le_refl _) id) trivial trivial

theorem Safe.wait (h : Safe s) {i : ℕ} {pc : Waiting} (ht : s.threads[i]? = some (.waiting pc))
    (hlock : ∀ old wanted, pc = .lock old wanted → s.numChunks = old) {s' : State Key}
    (hstep : s.wait i pc = some s') : Safe s' := by
  have hgone : Safe { s with threads := replaceAt s.threads i [] } :=
    h.replace ht (fun _ => rfl) nofun nofun
  have hgoes : ∀ pc, Safe { s with threads := replaceAt s.threads i [.waiting pc] } := by
    intro pc
    refine h.replace ht (refs_keep rfl) (fun _ u hu => ?_) (by simp)
    rw [mem_singleton.mp hu]
    rfl
  cases pc with
  | loadCount =>
      obtain rfl := some.inj hstep
      exact hgoes _
  | loadConfigured old =>
      rw [State.wait] at hstep
      split at hstep <;> obtain rfl := some.inj hstep
      · exact hgone
      · exact hgoes _
  | lock old wanted =>
      have hold := hlock old wanted rfl
      rw [State.wait] at hstep
      split at hstep
      · exact nomatch hstep
      · rename_i hfree
        obtain rfl := some.inj hstep
        have hcount := h.count
        rw [kept, hfree, bind_none, getD_none] at hcount
        have hphase : s.phase = ⟨old, 0, ⟨old, false⟩, none⟩ := by
          rw [phase, hfree, hold]
        have hkept : s.kept = s.chunks := by
          rw [kept, hfree, bind_none, getD_none]
        split
        · refine hgone.leave hkept hphase.symm rfl ?_ ?_
          · rintro _ ⟨⟩
            trivial
          · rintro _ ⟨⟩
            trivial
        · refine hgone.leave hkept hphase.symm rfl ?_ ?_
          · rintro _ ⟨⟩
            change wanted ≤ s.chunks.length
            omega
          · rintro _ ⟨⟩
            trivial

/-- A callback throws while the old entries are deleted. -/
theorem Safe.throws (h : Safe s) {old new n k chunk : ℕ}
    (hpc : s.resizer = some (.visit old new .delete n chunk))
    (hstep : s.toShared.throws k (.visit old new .delete n chunk) = some shared) :
    Safe { s with toShared := shared, resizer := none } := by
  obtain rfl := some.inj hstep
  have hchunk : chunk ∈ s.kept := by
    rw [kept_eq hpc rfl]
    exact h.holds _ hpc
  have hnum := h.numChunks
  rw [noteAccess_eq (h.live chunk hchunk).1]
  refine h.leave (kept_eq hpc rfl) ?_ rfl nofun nofun
  rw [phase, hpc] at hnum
  rw [phase, phase, hpc]
  exact congrArg (fun n => Phase.mk n 0 ⟨n, false⟩ none) hnum

theorem Safe.rehash (h : Safe s) {old new n : ℕ} {op : RehashOperation}
    (hpc : s.resizer = some (.rehash old new op n))
    (hstep : s.toShared.resize cfg choice (.rehash old new op n) = some (shared, next)) :
    Safe { s with toShared := shared, resizer := next } := by
  have hsizes := h.sizes _ hpc
  simp only [Shared.resize] at hstep
  split at hstep
  · rename_i hlt
    split at hstep
    · rename_i hfind
      rw [getElem?_eq_none_iff] at hfind
      have hle := hsizes.1
      omega
    · rename_i chunk hfind
      obtain ⟨rfl, rfl⟩ := hstep
      exact h.rehash_on hpc rfl (.visit old new op n chunk) rfl rfl hsizes (mem_of_getElem? hfind)
  · cases op with
    | copy =>
        obtain ⟨rfl, rfl⟩ := hstep
        exact h.rehash_on hpc rfl (.storeCount old new) rfl rfl hsizes trivial
    | delete =>
        obtain ⟨rfl, rfl⟩ := hstep
        exact h.rehash_on hpc rfl (.shrink old new) rfl rfl trivial trivial

theorem Safe.visit (h : Safe s) {old new n chunk : ℕ} {op : RehashOperation}
    (hpc : s.resizer = some (.visit old new op n chunk))
    (hstep : s.toShared.resize cfg choice (.visit old new op n chunk) = some (shared, next)) :
    Safe { s with toShared := shared, resizer := next } := by
  have hsizes := h.sizes _ hpc
  have hchunk : chunk ∈ s.chunks := h.holds _ hpc
  have hlive : chunk ∉ s.released := by
    rw [← kept_eq hpc rfl] at hchunk
    exact (h.live chunk hchunk).1
  cases choice with
  | visit key moved =>
      simp only [Shared.resize, noteAccess_eq hlive, noteIndex_eq hsizes.2.2.2] at hstep
      split at hstep
      · rename_i hfind
        -- `getChunk` does not throw, as the new count is within the chunks.
        rw [tableFindChunk, getElem?_eq_none_iff] at hfind
        have hlt := cfg.hash_lt key new hsizes.2.2.2
        have hle := hsizes.2.1
        omega
      · rename_i newChunk hfind
        split at hstep <;> obtain ⟨rfl, rfl⟩ := hstep
        · rename_i hmoved
          obtain rfl : op = .copy := hmoved.1
          exact h.rehash_on hpc rfl (.copy old new n chunk newChunk) rfl rfl hsizes
            ⟨hchunk, mem_of_getElem? hfind⟩
        · exact h.rehash_on hpc rfl (.visit old new op n chunk) rfl rfl hsizes hchunk
  | go | timeout | promote | allocate | throw =>
      unfold Shared.resize at hstep
      obtain ⟨rfl, rfl⟩ := hstep
      exact h.rehash_on hpc rfl (.rehash old new op (n + 1)) rfl rfl hsizes trivial

/-- The counts are stored, announced first if there are entries to move. -/
theorem Safe.store (h : Safe s) {old new : ℕ} (hpc : s.resizer = some (.store old new))
    (htested : new = 0 → ∀ t ∈ s.threads, t.tested = false)
    (hstep : s.toShared.resize cfg choice (.store old new) = some (shared, next)) :
    Safe { s with toShared := shared, resizer := next } := by
  have hnew : new ≤ s.chunks.length := h.sizes _ hpc
  have hnum : s.numChunks = old := by
    rw [h.numChunks, phase, hpc]
    rfl
  have hpending : s.pendingNumChunks = 0 := by
    rw [h.pending, phase, hpc]
    rfl
  have hcount := h.count
  rw [kept_eq hpc rfl, hnum] at hcount
  rw [Shared.resize] at hstep
  split at hstep <;> rename_i hpos <;> obtain ⟨rfl, rfl⟩ := hstep
  · refine h.advance hpc rfl _ _ new (.switch old new .announced) rfl ?_ hnum rfl Or.inl
      (window_stays hpc _ (Or.inl rfl) (le_max_left _ _) (fun _ => rfl))
      ⟨hcount, hnew, fun _ => hpos.symm⟩ trivial
    omega
  · exact h.advance hpc rfl _ new _ (.switch old new .zero) rfl hnew rfl hpending
      (fun hzero => Or.inr (htested hzero)) (window_stays hpc _ (Or.inl rfl) (le_max_left _ _) id)
      ⟨hcount, hnew, fun hne => absurd rfl hne⟩ trivial

/-- The allocator finds no configured size below the count, zero is not stored while a request is
between its test for zero and its load of the count, and no vector is written to whose index a
request has in hand. -/
def ResizePc.steady (s : State Key) : ResizePc → Bool
  | grow _ _ => decide (s.numChunks ≤ s.configured)
  | shrink old new => decide (new < old → s.numChunks ≤ s.configured)
  | store _ new => decide (new = 0 → ∀ t ∈ s.threads, t.tested = false)
  | growPublish _ _ _ .flip | shrinkPublish _ _ .flip => true
  | growPublish _ _ _ _ | shrinkPublish _ _ _ =>
      decide (∀ t ∈ s.threads, t.reads ≠ some (!s.current))
  | _ => true

theorem Safe.runResizer (h : Safe s) (hpc : s.resizer = some pc) (hsteady : pc.steady s = true)
    (hstep : s.toShared.resize cfg choice pc = some (shared, next)) :
    Safe { s with toShared := shared, resizer := next } := by
  have hnum := h.numChunks
  have hpending := h.pending
  have hcount := h.count
  have hsizes := h.sizes pc hpc
  have hholds := h.holds pc hpc
  rw [phase, hpc] at hnum hpending
  -- The resize is over when its count is in use and nothing is announced.
  have hidle : ∀ {shared : Shared}, shared.numChunks = s.numChunks →
      pc.phase = ⟨pc.phase.numChunks, 0, ⟨pc.phase.numChunks, false⟩, none⟩ →
      phase { s with toShared := shared, resizer := none } = s.phase := by
    intro shared hshared hphase
    rw [phase, phase, hpc, hshared, hnum]
    exact hphase.symm
  cases pc with
  | grow old wanted =>
      rw [Shared.resize, map_eq_some_iff] at hstep
      obtain ⟨⟨shared', chunks⟩, halloc, hstep⟩ := hstep
      obtain ⟨rfl, rfl⟩ := hstep
      obtain ⟨released, nextChunk, rfl, hpublishes⟩ :=
        h.allocatorResize (kept_eq hpc rfl) (of_decide_eq_true hsteady) halloc
      exact h.allocate hpc hpublishes rfl rfl trivial (fun _ => trivial)
  | growPublish old wanted chunks publish =>
      cases publish with
      | clear =>
          obtain ⟨rfl, rfl⟩ := hstep
          exact h.overwrite hpc (of_decide_eq_true hsteady) [] rfl rfl trivial trivial
      | assign =>
          obtain ⟨rfl, rfl⟩ := hstep
          exact h.overwrite hpc (of_decide_eq_true hsteady) chunks rfl rfl trivial rfl
      | flip =>
          rw [Shared.resize] at hstep
          split at hstep <;> obtain ⟨rfl, rfl⟩ := hstep
          · exact h.flip hpc rfl hholds (hidle rfl rfl) rfl (by simp) (by simp)
          · refine h.flip hpc rfl hholds ?_ rfl ?_ ?_
            · rw [phase, phase, hpc]
              rfl
            · rintro _ ⟨⟩
              exact le_refl _
            · rintro _ ⟨⟩
              trivial
  | store old new =>
      exact h.store hpc (of_decide_eq_true hsteady) hstep
  | switch old new stage =>
      obtain ⟨rfl, rfl⟩ := hstep
      rw [kept_eq hpc rfl] at hcount
      exact h.advance hpc rfl (!s.top) _ _ (.drain old new stage s.top) rfl hcount hnum hpending
        Or.inl (window_switch hpc rfl rfl) hsizes (Bool.not_not s.top).symm
  | drain old new stage top =>
      rw [Shared.resize, ite_none_right_eq_some] at hstep
      obtain ⟨hrefs, hstep⟩ := hstep
      obtain ⟨rfl, rfl⟩ := hstep
      exact h.drain hpc hrefs
  | rehash old new op n => exact h.rehash hpc hstep
  | visit old new op n chunk => exact h.visit hpc hstep
  | copy old new n chunk newChunk =>
      obtain ⟨rfl, rfl⟩ := hstep
      have hlive : newChunk ∈ s.kept := by
        rw [kept_eq hpc rfl]
        exact hholds.2
      rw [noteAccess_eq (h.live newChunk hlive).1]
      exact h.rehash_on hpc rfl (.visit old new .copy n chunk) rfl rfl hsizes hholds.1
  | storeCount old new =>
      obtain ⟨rfl, rfl⟩ := hstep
      obtain ⟨hold, hnew, hpos⟩ := hsizes
      exact h.advance hpc rfl _ new _ (.switch old new .moved) rfl hnew rfl hpending
        (fun hzero => absurd hzero (Nat.ne_of_gt hpos.2))
        (window_stays hpc _ (Or.inl rfl) (le_refl _) id) ⟨hold, hnew, fun _ => hpos⟩ trivial
  | clearPending old new =>
      obtain ⟨rfl, rfl⟩ := hstep
      obtain ⟨hold, hnew, hpos⟩ := hsizes
      rw [kept_eq hpc rfl] at hcount
      exact h.advance hpc rfl _ _ 0 (.switch old new .cleared) rfl hcount hnum rfl Or.inl
        (window_stays hpc _ (Or.inl rfl) (le_refl _) id) ⟨hold, hnew, fun _ => hpos⟩ trivial
  | shrink old new =>
      simp only [Shared.resize] at hstep
      split at hstep
      · rename_i hlt
        rw [map_eq_some_iff] at hstep
        obtain ⟨⟨shared', chunks⟩, halloc, hstep⟩ := hstep
        obtain ⟨rfl, rfl⟩ := hstep
        obtain ⟨released, nextChunk, rfl, hpublishes⟩ :=
          h.allocatorResize (kept_eq hpc rfl) (of_decide_eq_true hsteady hlt) halloc
        exact h.allocate hpc hpublishes rfl rfl trivial (fun _ => trivial)
      · obtain ⟨rfl, rfl⟩ := hstep
        exact h.leave (kept_eq hpc rfl) (hidle rfl rfl) rfl (by simp) (by simp)
  | shrinkPublish new chunks publish =>
      cases publish with
      | clear =>
          obtain ⟨rfl, rfl⟩ := hstep
          exact h.overwrite hpc (of_decide_eq_true hsteady) [] rfl rfl trivial trivial
      | assign =>
          obtain ⟨rfl, rfl⟩ := hstep
          exact h.overwrite hpc (of_decide_eq_true hsteady) chunks rfl rfl trivial rfl
      | flip =>
          obtain ⟨rfl, rfl⟩ := hstep
          exact h.flip hpc rfl hholds (hidle rfl rfl) rfl (by simp) (by simp)

end Resizes

/-! ## Whole runs -/

section Runs

variable {Key : Type} {cfg : Config Key} {s s' : State Key} {label : Label Key}

/-- A callback throws in a pass that deletes. -/
def ResizePc.deletes : ResizePc → Bool
  | visit _ _ .delete _ _ => true
  | _ => false

/-- No resize starts from a count that is out of date, each of its steps is steady, and the only
exceptions are those of callbacks in a pass that deletes. -/
def steady (s : State Key) : Label Key → Bool
  | .run i _ =>
      match s.threads[i]? with
      | some (.waiting (.lock old _)) => decide (s.numChunks = old)
      | _ => true
  | .runResizer choice => s.resizer.all fun pc => if choice.isThrow then pc.deletes else pc.steady s
  | _ => true

theorem safe_new (n configured : ℕ) : Safe (new n configured : State Key) where
  zeroIndexed := rfl
  accessedReleased := rfl
  refs := fun _ => rfl
  nodup := nodup_range
  live := fun _ hchunk => ⟨nofun, mem_range.mp hchunk⟩
  past := nofun
  same := rfl
  count := le_of_eq length_range.symm
  numChunks := rfl
  pending := rfl
  tested := nofun
  requests := nofun
  sizes := nofun
  holds := nofun

theorem Safe.step (h : Safe s) (hsteady : steady s label = true)
    (hstep : step cfg s label = some s') : Safe s' := by
  cases label with
  | call op key =>
      obtain rfl := some.inj hstep
      exact h.spawn (.entering ⟨op, key⟩ .check) rfl rfl
  | resize =>
      obtain rfl := some.inj hstep
      exact h.spawn (.waiting .loadCount) rfl rfl
  | configure n =>
      obtain rfl := some.inj hstep
      exact { h with }
  | run i choice =>
      obtain ⟨t, ht, hrun⟩ := bind_eq_some_iff.mp hstep
      cases t with
      | entering call pc =>
          obtain rfl := some.inj hrun
          exact h.enter ht rfl
      | request call top pc =>
          obtain rfl := some.inj hrun
          exact h.request ht rfl
      | waiting pc =>
          refine h.wait ht ?_ hrun
          rintro old wanted rfl
          rw [steady, ht] at hsteady
          exact of_decide_eq_true hsteady
  | runResizer choice =>
      obtain ⟨pc, hpc, hrun⟩ := bind_eq_some_iff.mp hstep
      rw [steady, hpc, all_some] at hsteady
      unfold State.runResizer at hrun
      split at hrun
      · obtain ⟨shared, hthrows, rfl⟩ := map_eq_some_iff.mp hrun
        simp only [Choice.isThrow, if_pos] at hsteady
        unfold ResizePc.deletes at hsteady
        split at hsteady
        · exact h.throws hpc hthrows
        · exact nomatch hsteady
      · rename_i hchoice
        obtain ⟨⟨shared, next⟩, hresize, rfl⟩ := map_eq_some_iff.mp hrun
        have hthrow : choice.isThrow ≠ true := by
          cases choice <;> simp_all [Choice.isThrow]
        rw [if_neg hthrow] at hsteady
        exact h.runResizer hpc hsteady hresize

/-- In every run whose steps are steady, no index is computed for a table of zero chunks and no
released chunk is accessed. -/
theorem no_access_of_exec {n configured : ℕ} {labels : List (Label Key)}
    (hrun : exec (step cfg) (new n configured) labels = some s)
    (hsteady : Along (step cfg) (fun s label => steady s label) (new n configured)
      labels) : s.zeroIndexed = false ∧ s.accessedReleased = false := by
  have hsafe : Safe s := exec_invariant_along
    (fun _ _ _ h hsteady hstep => h.step hsteady hstep) hrun hsteady (safe_new n configured)
  exact ⟨hsafe.zeroIndexed, hsafe.accessedReleased⟩

end Runs

/-- Every key is in the last chunk. -/
def lastChunk : Config Unit where
  hash _ n := n - 1
  hash_zero _ := rfl
  hash_lt _ _ hn := Nat.sub_lt hn one_pos

/-- So many steps of a thread, or of the resize -/
def runs (i n : ℕ) : List (Label Unit) := replicate n (.run i .go)

def resizes (n : ℕ) : List (Label Unit) := replicate n (.runResizer .go)

/-- A write while the cache shrinks: it has loaded the old count before the switch, and writes to
both places. -/
def shrinking : List (Label Unit) :=
  [.call .set ()] ++ runs 0 8 ++ [.configure 1, .resize] ++ runs 0 3 ++ resizes 2 ++ runs 0 13 ++
    resizes 21

theorem no_access_of_exec_shrinking :
    ∃ s, exec (step lastChunk) (new 2 2) shrinking = some s ∧
      (s.numChunks = 1 ∧ s.released = [1]) ∧ s.zeroIndexed = false ∧
      s.accessedReleased = false := by
  obtain ⟨s, hs, hfacts⟩ : ∃ s, exec (step lastChunk) (new 2 2) shrinking = some s ∧
      s.numChunks = 1 ∧ s.released = [1] := by decide +kernel
  exact ⟨s, hs, hfacts, no_access_of_exec hs (by decide +kernel)⟩

/-- A request has seen that there are chunks. A resize to zero stores its count and finds nobody to
wait for; then the request gets its token, loads the count and computes an index. -/
def zeroBetween : List (Label Unit) :=
  [.call .get ()] ++ runs 0 1 ++ [.configure 0, .resize] ++ runs 0 3 ++ resizes 3 ++ runs 0 7 ++
    resizes 1 ++ runs 0 1

/-- A resize has read that the cache should grow. When it has the lock, the pool has been configured
to be smaller than it is, and the allocator shrinks it under the requests. -/
def growsSmaller : List (Label Unit) :=
  [.call .get ()] ++ runs 0 8 ++ [.resize] ++ runs 0 2 ++ [.configure 1] ++ runs 0 1 ++ resizes 1 ++
    runs 0 1

/-- Two resizes have read the same count. The second one leaves its announcement behind; a write
that has seen this loads the count again, when a third resize has made it zero. -/
def resizeTwice : List (Label Unit) :=
  [.configure 1, .resize] ++ runs 0 2 ++ [.resize] ++ runs 0 3 ++ resizes 23 ++ runs 0 1 ++
    resizes 6 ++ [.call .set ()] ++ runs 0 10 ++ [.configure 0, .resize] ++ runs 0 3 ++ resizes 1 ++
    runs 0 2

/-- There is an entry, and a callback throws when the resize comes to it: the announcement stays as
well. -/
def throwing : List (Label Unit) :=
  [.call .set ()] ++ runs 0 11 ++ [.configure 1, .resize] ++ runs 0 3 ++ resizes 6 ++
    [.runResizer (.throw 0), .call .set ()] ++ runs 0 10 ++ [.configure 0, .resize] ++ runs 0 3 ++
    resizes 1 ++ runs 0 2

theorem access_during_resize :
    (exec (step lastChunk) (new 1 1) zeroBetween).map
        (fun s => (s.zeroIndexed, s.accessedReleased)) = some (true, true) ∧
      (exec (step lastChunk) (new 2 3) growsSmaller).map
        (fun s => s.accessedReleased) = some true ∧
      (exec (step lastChunk) (new 2 2) resizeTwice).map
        (fun s => s.zeroIndexed) = some true ∧
      (exec (step lastChunk) (new 2 2) throwing).map
        (fun s => s.zeroIndexed) = some true := by
  refine ⟨?_, ?_, ?_, ?_⟩ <;> decide +kernel

end CacheLib.CompactCache
