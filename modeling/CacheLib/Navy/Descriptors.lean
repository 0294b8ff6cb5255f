/-
The counters of a region count its open descriptors.

A counter says nothing about a descriptor that was opened before the last `reset`,
so the statement is about both: in every reachable state each counter is the number
of descriptors of that mode, all of them of the present incarnation. It holds as
long as `reset` finds no descriptor open.

Reclaim sees to that. It waits for the writers, blocks new readers and waits for the
old ones. The cleanup after a failed flush does not: it waits for the writers and for
the readers in memory, and at no time blocks access. A reader that looked its key up
before the entries were removed finds a region without a buffer, opens it for a read
from the device, and has it open when it is reset.
-/
import CacheLib.Navy.RegionProtocol

set_option autoImplicit false

namespace CacheLib.Navy

open Transition Function List Option

/-! ## What each phase promises -/

/-- The phases in which a write descriptor may be open. -/
def Phase.mayWrite : Phase → Bool
  | .allocating => true
  | .flushing _ => true
  | .cleaning => true
  | _ => false

/-- The phases in which no read descriptor is open. -/
def Phase.noReaders (cfg : ManagerConfig) : Phase → Bool
  | .drained => true
  | .detached => true
  | .cleanupBumped => true
  | .evicting => !cfg.allowReadDuringReclaim
  | .unlinked => !cfg.allowReadDuringReclaim
  | .bumped => !cfg.allowReadDuringReclaim
  | _ => false

/-- The phases in which access is blocked. -/
def Phase.blocked (cfg : ManagerConfig) : Phase → Bool
  | .blocking => true
  | .drained => true
  | .marked => !cfg.allowReadDuringReclaim
  | .evicting => !cfg.allowReadDuringReclaim
  | .unlinked => !cfg.allowReadDuringReclaim
  | .bumped => !cfg.allowReadDuringReclaim
  | _ => false

/-- Between detaching the buffer and the reset, after a failed flush. -/
def Phase.cleanupDetached : Phase → Bool
  | .detached => true
  | .cleanupBumped => true
  | _ => false

/-- A region agrees with its phase. -/
structure RegionOk (cfg : ManagerConfig) (p : Phase) (r : Region ℕ) : Prop where
  writers : p.mayWrite = false → r.activeWriters = 0
  readers : p.noReaders cfg = true → r.activePhysReaders = 0 ∧ r.activeInMemReaders = 0
  blocked : p.blocked cfg = true → r.blockAccess = true

def holds (rid : RegionId) (mode : OpenMode) (d : Desc) : Bool := d.rid == rid && d.mode == mode

structure Counted (cfg : ManagerConfig) (s : State) : Prop where
  counter : ∀ rid mode, (s.regions rid).counter mode = s.descs.countP (holds rid mode)
  inc : ∀ d ∈ s.descs, d.inc = s.incarnation d.rid
  ok : ∀ rid, RegionOk cfg (s.phase rid) (s.regions rid)

variable {cfg : ManagerConfig} {s t : State} {rid : RegionId} {r : Region ℕ} {p : Phase} {d : Desc}

theorem counted_init : Counted cfg {} where
  counter := by
    rintro rid (_ | _ | _) <;> rfl
  inc := by
    intro d hd
    exact absurd hd not_mem_nil
  ok := fun _ => ⟨fun _ => rfl, fun _ => ⟨rfl, rfl⟩, fun h => absurd h Bool.false_ne_true⟩

/-- An open descriptor is counted. -/
theorem Counted.counter_pos (h : Counted cfg s) (hd : d ∈ s.descs) :
    0 < (s.regions d.rid).counter d.mode := by
  rw [h.counter, countP_pos_iff]
  exact ⟨d, hd, by simp [holds]⟩

/-- Where all counters are zero nothing is open. -/
theorem Counted.not_open (h : Counted cfg s)
    (hzero : ∀ mode, (s.regions rid).counter mode = 0) (hd : d ∈ s.descs) :
    d.rid ≠ rid := by
  intro e
  have hpos := h.counter_pos hd
  rw [e, hzero d.mode] at hpos
  exact absurd hpos (Nat.lt_irrefl 0)

/-- A worker about to reset a region has it to itself. -/
theorem Counted.counter_of_resets (h : Counted cfg s)
    (hr : s.resets cfg rid = true) (mode : OpenMode) : (s.regions rid).counter mode = 0 := by
  have hphase : (s.phase rid).mayWrite = false ∧ (s.phase rid).noReaders cfg = true := by
    unfold State.resets at hr
    rcases hp : s.phase rid <;> rw [hp] at hr <;> simp_all [Phase.mayWrite, Phase.noReaders]
  have hw := (h.ok rid).writers hphase.1
  obtain ⟨hphys, hmem⟩ := (h.ok rid).readers hphase.2
  rcases mode with _ | _ | _
  · exact hw
  · exact hmem
  · exact hphys

/-! ## Steps that open and close nothing -/

/-- The counters of the region stay, and it agrees with its new phase. -/
theorem Counted.setRegion (h : Counted cfg s)
    (hcount : ∀ mode, r.counter mode = (s.regions rid).counter mode) (hok : RegionOk cfg p r) :
    Counted cfg (s.setRegion rid r p) where
  counter := by
    intro rid' mode
    by_cases hrid : rid' = rid
    · subst hrid
      rw [State.setRegion]
      dsimp only
      rw [update_self, hcount]
      exact h.counter rid' mode
    · rw [State.setRegion]
      dsimp only
      rw [update_of_ne hrid]
      exact h.counter rid' mode
  inc := h.inc
  ok := by
    intro rid'
    by_cases hrid : rid' = rid
    · subst hrid
      simpa only [State.setRegion, update_self] using hok
    · simpa only [State.setRegion, update_of_ne hrid] using h.ok rid'

theorem Counted.resetRegion (h : Counted cfg s)
    (hr : s.resets cfg rid = true) : Counted cfg (s.resetRegion rid) := by
  have hzero := h.counter_of_resets hr
  have hset : Counted cfg (s.setRegion rid (s.regions rid).reset .resetDone) := by
    apply h.setRegion
    · intro mode
      rw [hzero mode]
      rcases mode with _ | _ | _ <;> rfl
    · exact ⟨fun _ => rfl, fun h => absurd h Bool.false_ne_true,
        fun h => absurd h Bool.false_ne_true⟩
  refine ⟨hset.counter, ?_, hset.ok⟩
  intro d hd
  have hne : d.rid ≠ rid := h.not_open hzero hd
  change d.inc = update s.incarnation rid (s.incarnation rid + 1) d.rid
  rw [update_of_ne hne]
  exact h.inc d hd

/-! ## Opening and closing -/

/-- What is open besides what this reader holds. -/
def State.otherDescs (s : State) (reader : Reader) : List Desc :=
  (s.readers.erase reader).filterMap Reader.desc ++ s.writers

theorem descs_perm_of_mem {reader : Reader} (h : reader ∈ s.readers) :
    s.descs.Perm (reader.desc.toList ++ s.otherDescs reader) := by
  have hperm := (perm_cons_erase h).filterMap Reader.desc
  rw [filterMap_cons] at hperm
  unfold State.descs State.otherDescs
  rw [← append_assoc]
  apply Perm.append_right
  rcases hd : reader.desc with _ | d <;> rw [hd] at hperm
  · exact hperm
  · exact hperm

theorem descs_setReader (reader : Reader) (next : Option Reader) :
    (s.setReader reader next).descs = (next.bind Reader.desc).toList ++ s.otherDescs reader := by
  unfold State.descs State.setReader State.otherDescs
  rw [← append_assoc, filterMap_append]
  rcases next with _ | r
  · rfl
  · rcases hd : r.desc with _ | d <;> simp [hd]

/-- A reader's step that keeps what it holds. -/
theorem Counted.setReader (h : Counted cfg s) {reader : Reader} (hmem : reader ∈ s.readers)
    {next : Option Reader} (hdesc : next.bind Reader.desc = reader.desc) :
    Counted cfg (s.setReader reader next) := by
  have hperm : (s.setReader reader next).descs.Perm s.descs := by
    rw [descs_setReader, hdesc]
    exact (descs_perm_of_mem hmem).symm
  refine ⟨?_, ?_, h.ok⟩
  · intro rid mode
    rw [hperm.countP_eq]
    exact h.counter rid mode
  · intro d hd
    exact h.inc d (hperm.subset hd)

theorem Counted.ok_update (h : Counted cfg s)
    (hok : RegionOk cfg (s.phase rid) r) (b : RegionId) :
    RegionOk cfg (s.phase b) (update s.regions rid r b) := by
  by_cases hb : b = rid
  · subst hb
    rw [update_self]
    exact hok
  · rw [update_of_ne hb]
    exact h.ok b

theorem Counted.open (h : Counted cfg s)
    (hperm : t.descs.Perm (d :: s.descs))
    (hregions : t.regions = update s.regions d.rid r) (hphase : t.phase = s.phase)
    (hinc : t.incarnation = s.incarnation) (hd : d.inc = s.incarnation d.rid)
    (hcount : ∀ mode, r.counter mode
      = (s.regions d.rid).counter mode + if d.mode = mode then 1 else 0)
    (hok : RegionOk cfg (s.phase d.rid) r) : Counted cfg t where
  counter := by
    intro rid mode
    -- The new descriptor counts once, in its own region and mode.
    rw [hperm.countP_eq, countP_cons, hregions, ← h.counter]
    by_cases hrid : rid = d.rid
    · subst hrid
      rw [update_self, hcount mode]
      by_cases hm : d.mode = mode <;> simp [holds, hm]
    · have hne : d.rid ≠ rid := fun e => hrid e.symm
      rw [update_of_ne hrid]
      simp [holds, hne]
  inc := by
    intro x hx
    rw [hinc]
    rcases mem_cons.mp (hperm.subset hx) with rfl | hx
    · exact hd
    · exact h.inc x hx
  ok := by
    rw [hregions, hphase]
    exact h.ok_update hok

theorem counter_close (r : Region ℕ) (mode mode' : OpenMode) :
    (r.close mode).counter mode'
      = if mode = mode' then decrement (r.counter mode') else r.counter mode' := by
  rcases mode with _ | _ | _ <;> rcases mode' with _ | _ | _ <;> rfl

/-- Closing leaves zero counters at zero, and the flags alone. -/
theorem RegionOk.close (h : RegionOk cfg p r) {mode : OpenMode}
    (hpos : 0 < r.counter mode) : RegionOk cfg p (r.close mode) := by
  -- A counter at zero is not the one that is decremented.
  have hstay : ∀ mode', r.counter mode' = 0 → (r.close mode).counter mode' = 0 := by
    intro mode' hzero
    rw [counter_close, if_neg, hzero]
    intro e
    rw [e, hzero] at hpos
    exact absurd hpos (Nat.lt_irrefl 0)
  have hblock : (r.close mode).blockAccess = r.blockAccess := by
    rcases mode with _ | _ | _ <;> rfl
  refine ⟨fun hp => hstay .write (h.writers hp), fun hp => ?_, fun hp => hblock.trans (h.blocked hp)⟩
  obtain ⟨hphys, hmem⟩ := h.readers hp
  exact ⟨hstay (.read true) hphys, hstay (.read false) hmem⟩

/-- One descriptor less, taken from the counter it was counted in. -/
theorem Counted.close (h : Counted cfg s) (hperm : s.descs.Perm (d :: t.descs))
    (hregions : t.regions = update s.regions d.rid ((s.regions d.rid).close d.mode))
    (hphase : t.phase = update s.phase d.rid (s.phase d.rid))
    (hinc : t.incarnation = s.incarnation) : Counted cfg t := by
  have hpos := h.counter_pos (hperm.symm.subset mem_cons_self)
  rw [update_eq_self] at hphase
  refine ⟨?_, ?_, ?_⟩
  · intro rid mode
    have hcount := h.counter rid mode
    rw [hperm.countP_eq, countP_cons] at hcount
    rw [hregions]
    by_cases hrid : rid = d.rid
    · subst hrid
      rw [update_self, counter_close]
      by_cases hm : d.mode = mode
      · subst hm
        -- The descriptor was counted, so the decrement does not wrap.
        rw [if_pos rfl, decrement_of_pos hpos, hcount]
        simp [holds]
      · rw [if_neg hm, hcount]
        simp [holds, hm]
    · have hne : d.rid ≠ rid := fun e => hrid e.symm
      rw [update_of_ne hrid, hcount]
      simp [holds, hne]
  · intro x hx
    rw [hinc]
    exact h.inc x (hperm.symm.subset (mem_cons_of_mem _ hx))
  · rw [hregions, hphase]
    exact h.ok_update ((h.ok d.rid).close hpos)

/-! ## Every step -/

/-- **The condition.** While the cleanup after a failed flush is between detaching
the buffer and resetting the region, no reader has the region open. -/
def ReadersStayOut (s : State) : Label → Prop
  | .work rid => s.phase rid = .cleaned → (s.regions rid).activePhysReaders = 0
  | .openForRead (.found _ entry) => (s.phase entry.rid).cleanupDetached = false
  | _ => True

instance ReadersStayOut.decidable (s : State) : (l : Label) → Decidable (ReadersStayOut s l)
  | .work rid =>
      inferInstanceAs (Decidable (s.phase rid = .cleaned → (s.regions rid).activePhysReaders = 0))
  | .openForRead (.found _ entry) =>
      inferInstanceAs (Decidable ((s.phase entry.rid).cleanupDetached = false))
  | .openForRead (.seqRead _) | .openForRead (.opened _ _ _) | .openForRead (.ready _ _)
  | .openForRead (.mismatched _)
  | .getSeqNumber | .lookup _ _ | .checkSeqNumber _ | .read _ | .closeReader _
  | .openAndAllocate _ _ | .updateIndex _ _ | .closeWriter _ | .removeKey _ | .getCleanRegion _
  | .assignBuffer _ _ | .doFlush _ | .deviceWrite _ _ _ | .giveUp _ | .evict _
  | .evictEntry _ _ _ => isTrue trivial

/-- A region and phase in which no reader is kept out. -/
theorem RegionOk.of_writers
    (hw : p.mayWrite = false → r.activeWriters = 0) (hr : p.noReaders cfg = false)
    (hb : p.blocked cfg = false) : RegionOk cfg p r :=
  ⟨hw, fun h => absurd (hr.symm.trans h) Bool.false_ne_true,
    fun h => absurd (hb.symm.trans h) Bool.false_ne_true⟩

/-- A section that leaves the region's counters alone. -/
private theorem counted_keep (h : Counted cfg s) (rid : RegionId)
    (hok : RegionOk cfg p (s.regions rid)) : Counted cfg (s.setRegion rid (s.regions rid) p) :=
  h.setRegion (fun _ => rfl) hok

theorem counter_readyForReclaim (r : Region ℕ) (allowRead : Bool) (mode : OpenMode) :
    (r.readyForReclaim allowRead).counter mode = r.counter mode := by
  rcases allowRead with _ | _ <;> rcases mode with _ | _ | _ <;> rfl

/-- A section that changes flags or the buffer. -/
private theorem counter_of_eq {r r' : Region ℕ} (hp : r'.activePhysReaders = r.activePhysReaders)
    (hm : r'.activeInMemReaders = r.activeInMemReaders)
    (hw : r'.activeWriters = r.activeWriters) (mode : OpenMode) :
    r'.counter mode = r.counter mode := by
  rcases mode with _ | _ | _
  · exact hw
  · exact hm
  · exact hp

theorem Counted.work (h : Counted cfg s) (hstay : ReadersStayOut s (.work rid))
    (hwork : s.work cfg rid = some t) : Counted cfg t := by
  have hok := h.ok rid
  unfold State.work at hwork
  rcases hp : s.phase rid with _ | _ | _ | _ | _ | _ | _ | _ | _ | _ | _ | _ | k | _ | _ | _ | _ |
    _ | _ | _ | _
  all_goals rw [hp] at hok
  all_goals simp only [hp, ite_none_right_eq_some, some.injEq] at hwork
  case evicted =>
    rw [← hwork]
    apply h.setRegion (counter_readyForReclaim _ _)
    have hw : ((s.regions rid).readyForReclaim cfg.allowReadDuringReclaim).activeWriters = 0 :=
      (counter_readyForReclaim _ _ .write).trans (hok.writers rfl)
    refine ⟨fun _ => hw, fun hn => absurd hn Bool.false_ne_true, ?_⟩
    intro hblocked
    have hallow : cfg.allowReadDuringReclaim = false := by simpa [Phase.blocked] using hblocked
    rw [hallow]
    rfl
  case marked =>
    obtain ⟨hopen, rfl⟩ := hwork
    refine counted_keep h rid ⟨fun _ => hok.writers rfl, ?_, fun hb => hok.blocked hb⟩
    intro hn
    have hallow : cfg.allowReadDuringReclaim = false := by simpa [Phase.noReaders] using hn
    rw [hallow] at hopen
    unfold Region.activeOpen at hopen
    simp only [Bool.false_eq_true, if_false] at hopen
    exact ⟨by omega, by omega⟩
  case evicting =>
    obtain ⟨-, rfl⟩ := hwork
    exact counted_keep h rid ⟨fun _ => hok.writers rfl, fun hn => hok.readers hn,
      fun hb => hok.blocked hb⟩
  case unlinked =>
    subst hwork
    have hkeep : Counted cfg (s.setRegion rid (s.regions rid) .bumped) :=
      counted_keep h rid ⟨fun _ => hok.writers rfl, fun hn => hok.readers hn,
        fun hb => hok.blocked hb⟩
    exact ⟨hkeep.counter, hkeep.inc, hkeep.ok⟩
  case bumped =>
    by_cases hallow : cfg.allowReadDuringReclaim = true
    · rw [if_pos hallow, some.injEq] at hwork
      subst hwork
      exact h.setRegion (counter_of_eq rfl rfl rfl) ⟨fun _ => hok.writers rfl,
        fun hn => absurd hn Bool.false_ne_true, fun _ => rfl⟩
    · rw [if_neg hallow, some.injEq] at hwork
      subst hwork
      exact h.resetRegion (by simp [State.resets, hp, hallow])
  case blocking =>
    obtain ⟨hnone, rfl⟩ := hwork
    refine counted_keep h rid ⟨fun _ => hok.writers rfl, fun _ => ?_, fun _ => hok.blocked rfl⟩
    unfold Region.noReaders at hnone
    obtain ⟨hmem, hphys⟩ := Bool.and_eq_true_iff.mp hnone
    exact ⟨beq_iff_eq.mp hphys, beq_iff_eq.mp hmem⟩
  case drained | cleanupBumped =>
    subst hwork
    exact h.resetRegion (by simp [State.resets, hp])
  case resetDone | untracked =>
    subst hwork
    exact counted_keep h rid (.of_writers (fun _ => hok.writers rfl) rfl rfl)
  case written =>
    subst hwork
    exact h.setRegion (counter_of_eq rfl rfl rfl)
      (.of_writers (fun _ => hok.writers rfl) rfl rfl)
  case flushed | cleaningEntries =>
    obtain ⟨-, rfl⟩ := hwork
    exact h.setRegion (counter_of_eq rfl rfl rfl)
      (.of_writers (fun _ => hok.writers rfl) rfl rfl)
  case cleaning =>
    obtain ⟨hwriters, rfl⟩ := hwork
    exact counted_keep h rid (.of_writers (fun _ => hwriters) rfl rfl)
  case cleaned =>
    -- the wait is for the readers in memory only: the others are out by the condition
    obtain ⟨hmem, rfl⟩ := hwork
    exact h.setRegion (counter_of_eq rfl rfl rfl) ⟨fun _ => hok.writers rfl,
      fun _ => ⟨hstay hp, hmem⟩, fun hb => absurd hb Bool.false_ne_true⟩
  case detached =>
    subst hwork
    have hkeep : Counted cfg (s.setRegion rid (s.regions rid) .cleanupBumped) :=
      counted_keep h rid ⟨fun _ => hok.writers rfl, fun _ => hok.readers rfl,
        fun hb => absurd hb Bool.false_ne_true⟩
    exact ⟨hkeep.counter, hkeep.inc, hkeep.ok⟩
  all_goals exact absurd hwork (by simp)

/-- **One step.** Under the condition every step keeps the counters equal to the
number of open descriptors. -/
theorem Counted.step (h : Counted cfg s) {l : Label} (hstay : ReadersStayOut s l)
    (hstep : step cfg s l = some t) : Counted cfg t := by
  rcases l with _ | ⟨reader, key⟩ | reader | reader | reader | reader | ⟨rid, size⟩ | ⟨desc, key⟩ |
    desc | key | rid | ⟨rid, available⟩ | rid | ⟨rid, ok, torn⟩ | rid | rid | ⟨rid, key, reinserted⟩ |
    rid
  all_goals simp only [Navy.step, ite_none_right_eq_some, some.injEq] at hstep
  case getSeqNumber | removeKey => exact hstep ▸ ⟨h.counter, h.inc, h.ok⟩
  case lookup =>
    obtain ⟨hmem, hstep⟩ := hstep
    rcases reader with q | _ | _ | _ | _ <;> simp only [reduceCtorEq, some.injEq] at hstep
    rw [← hstep]
    apply h.setReader hmem
    rcases s.index.lookup key with _ | e <;> rfl
  case openForRead =>
    obtain ⟨hmem, hstep⟩ := hstep
    rcases reader with _ | ⟨q, e⟩ | _ | _ | _ <;> simp only [reduceCtorEq] at hstep
    rcases hopen : (s.regions e.rid).openForRead with _ | ⟨phys, r⟩
    · rw [hopen, some.injEq] at hstep
      exact hstep ▸ h.setReader hmem rfl
    rw [hopen, some.injEq] at hstep
    have hperm := descs_perm_of_mem hmem
    obtain ⟨hfree, -, hcount, -⟩ := Region.openForRead_eq_some hopen
    have hok := h.ok e.rid
    have hnot : (s.phase e.rid).blocked cfg = false := by
      by_contra hyes
      have hb := hok.blocked (by simpa using hyes)
      rw [hfree] at hb
      exact Bool.false_ne_true hb
    refine h.open (t := t) (d := ⟨e.rid, .read phys, s.incarnation e.rid⟩) (r := r) ?_ ?_ ?_ ?_
      rfl hcount ⟨fun hp => ?_, fun hp => ?_, fun hp => ?_⟩
    · rw [← hstep, descs_setReader]
      exact (hperm.symm.cons _)
    · rw [← hstep]
      rfl
    · rw [← hstep]
      exact update_eq_self _ _
    · rw [← hstep]
      rfl
    · have hw := hcount .write
      rw [if_neg (by simp)] at hw
      exact hw.trans (hok.writers hp)
    · -- a phase without readers is blocked, or the condition keeps readers out
      have hdetached : (s.phase e.rid).cleanupDetached = false := hstay
      rcases hphase : s.phase e.rid <;> rw [hphase] at hp hnot hdetached <;>
        simp_all [Phase.noReaders, Phase.blocked, Phase.cleanupDetached]
    · exact absurd (hnot.symm.trans hp) Bool.false_ne_true
  case checkSeqNumber =>
    obtain ⟨hmem, hstep⟩ := hstep
    rcases reader with _ | _ | ⟨q, e, d⟩ | _ | _ <;>
      simp only [reduceCtorEq, some.injEq] at hstep
    rw [← hstep]
    apply h.setReader hmem
    split_ifs <;> rfl
  case read =>
    obtain ⟨-, hstep⟩ := hstep
    rcases reader with _ | _ | _ | _ | _ <;> simp only [reduceCtorEq, some.injEq] at hstep
    exact hstep ▸ h
  case closeReader =>
    obtain ⟨hmem, hstep⟩ := hstep
    have hperm := descs_perm_of_mem hmem
    rcases reader with _ | _ | _ | ⟨e, d⟩ | d <;>
      simp only [reduceCtorEq, some.injEq] at hstep
    all_goals
      subst hstep
      refine h.close (d := d) ?_ rfl rfl rfl
      rw [descs_setReader]
      exact hperm
  case openAndAllocate =>
    obtain ⟨hphase, hstep⟩ := hstep
    rcases hopen : (s.regions rid).openAndAllocate cfg.regionSize size with _ | ⟨offset, r⟩
    · rw [hopen, some.injEq] at hstep
      exact hstep ▸ h
    rw [hopen, some.injEq] at hstep
    have hok := h.ok rid
    unfold Region.openAndAllocate at hopen
    rw [ite_none_right_eq_some, some.injEq, Prod.mk.injEq] at hopen
    obtain ⟨-, -, rfl⟩ := hopen
    subst hstep
    refine h.open (d := ⟨rid, .write, s.incarnation rid⟩) perm_middle rfl ?_ rfl rfl
      (by rintro (_ | _ | _) <;> rfl) ?_
    · change update s.phase rid .allocating = s.phase
      rw [← hphase]
      exact update_eq_self _ _
    · rw [hphase]
      exact .of_writers (fun hp => absurd hp (by simp [Phase.mayWrite])) rfl rfl
  case updateIndex | evictEntry =>
    obtain ⟨-, rfl⟩ := hstep
    exact ⟨h.counter, h.inc, h.ok⟩
  case closeWriter =>
    obtain ⟨hmem, rfl⟩ := hstep
    refine h.close (d := desc) ?_ rfl rfl rfl
    exact ((perm_cons_erase hmem).append_left _).trans perm_middle
  case getCleanRegion | evict =>
    obtain ⟨hphase, rfl⟩ := hstep
    have hok := h.ok rid
    rw [hphase] at hok
    exact counted_keep h rid (.of_writers (fun _ => hok.writers rfl) rfl rfl)
  case assignBuffer =>
    obtain ⟨hphase, hstep⟩ := hstep
    have hok := h.ok rid
    rw [hphase] at hok
    split_ifs at hstep <;> rw [some.injEq] at hstep <;> subst hstep
    · exact h.setRegion (counter_of_eq rfl rfl rfl)
        (.of_writers (fun _ => hok.writers rfl) rfl rfl)
    · exact counted_keep h rid (.of_writers (fun _ => hok.writers rfl) rfl rfl)
  case doFlush =>
    obtain ⟨hphase, rfl⟩ := hstep
    exact h.setRegion (counter_of_eq rfl rfl rfl)
      (.of_writers (fun hp => absurd hp (by simp [Phase.mayWrite])) rfl rfl)
  case deviceWrite =>
    rcases hp : s.phase rid <;> simp only [hp, reduceCtorEq] at hstep
    split_ifs at hstep with hlimit hwriters hok
    · exact some.inj hstep ▸ h
    · have hkeep := counted_keep h rid
        (RegionOk.of_writers (p := .written) (fun _ => not_not.mp hwriters) rfl rfl)
      exact some.inj hstep ▸ ⟨hkeep.counter, hkeep.inc, hkeep.ok⟩
    · rename_i k
      have hkeep := counted_keep h rid
        (RegionOk.of_writers (p := .flushing (k + 1)) (fun _ => not_not.mp hwriters) rfl rfl)
      exact some.inj hstep ▸ ⟨hkeep.counter, hkeep.inc, hkeep.ok⟩
  case giveUp =>
    rcases hp : s.phase rid <;> simp only [hp, reduceCtorEq] at hstep
    rw [ite_none_right_eq_some, some.injEq] at hstep
    obtain ⟨-, rfl⟩ := hstep
    exact counted_keep h rid
      (.of_writers (fun hw => absurd hw (by simp [Phase.mayWrite])) rfl rfl)
  case work => exact h.work hstay hstep

/-- **Every run** that meets the condition. -/
theorem counted_of_run {ls : List Label} (hrun : exec (step cfg) {} ls = some s)
    (hstay : Along (step cfg) ReadersStayOut {} ls) : Counted cfg s := by
  have hkeep : ∀ (s : State) (l : Label) (t : State), Counted cfg s → ReadersStayOut s l →
      step cfg s l = some t → Counted cfg t :=
    fun _ _ _ hs hl ht => hs.step hl ht
  exact exec_invariant_along hkeep hrun hstay counted_init

/-- **No reset under a descriptor.** In every run in which readers stay out of the
cleanup after a failed flush, a worker whose next section is `reset` has a region
with no descriptor open, and every open descriptor is of the present incarnation and
has its share in a positive counter, the one its `close` decrements. -/
theorem reset_without_descriptors {ls : List Label} (hrun : exec (step cfg) {} ls = some s)
    (hstay : Along (step cfg) ReadersStayOut {} ls) :
    (∀ rid, s.resets cfg rid = true → ∀ d ∈ s.descs, d.rid ≠ rid) ∧
      ∀ d ∈ s.descs, 0 < (s.regions d.rid).counter d.mode ∧ d.inc = s.incarnation d.rid := by
  have h := counted_of_run hrun hstay
  refine ⟨?_, fun d hd => ⟨h.counter_pos hd, h.inc d hd⟩⟩
  intro rid hr d hd
  exact h.not_open (h.counter_of_resets hr) hd

/-! ## A failed flush and a late reader -/

def oneAttempt : ManagerConfig := ⟨4096, 1, true⟩

/-- Region 0 is reclaimed empty, filled with one entry, and the reader finds it. -/
def filled : List Label :=
  [.evict 0, .work 0, .work 0, .work 0, .work 0, .work 0, .work 0, .work 0, .work 0,
    .getCleanRegion 0, .assignBuffer 0 true, .openAndAllocate 0 64,
    .updateIndex ⟨0, .write, 1⟩ 5, .closeWriter ⟨0, .write, 1⟩, .getSeqNumber,
    .lookup (.seqRead 1) 5]

/-- The flush fails, its one attempt is used up, and the cleanup removes the entry. -/
def flushFails : List Label :=
  [.doFlush 0, .deviceWrite 0 false 9, .giveUp 0, .work 0, .evictEntry 0 5 none, .work 0]

/-- The reader opens the region between `detachBuffer` and the sequence number. -/
def lateReader : List Label :=
  [.work 0, .openForRead (.found 1 ⟨0, 1⟩),
    .checkSeqNumber (.opened 1 ⟨0, 1⟩ ⟨0, .read true, 1⟩), .work 0]

/-- The region is reset while the reader has it open, and the counter that `close`
will decrement is zero. -/
theorem reset_under_reader :
    ∃ s t, exec (step oneAttempt) {} (filled ++ flushFails ++ lateReader) = some s ∧
      s.resets oneAttempt 0 = true ∧ (⟨0, .read true, 1⟩ : Desc) ∈ s.descs ∧
      step oneAttempt s (.work 0) = some t ∧ (⟨0, .read true, 1⟩ : Desc) ∈ t.descs ∧
      (t.regions 0).counter (.read true) = 0 ∧ t.incarnation 0 = 2 := by
  obtain ⟨s, hs, hresets, hmem, t, ht, hmem', hzero, hinc⟩ :
      ∃ s, exec (step oneAttempt) {} (filled ++ flushFails ++ lateReader) = some s ∧
        s.resets oneAttempt 0 = true ∧ (⟨0, .read true, 1⟩ : Desc) ∈ s.descs ∧
        ∃ t, step oneAttempt s (.work 0) = some t ∧ (⟨0, .read true, 1⟩ : Desc) ∈ t.descs ∧
          (t.regions 0).counter (.read true) = 0 ∧ t.incarnation 0 = 2 :=
    ⟨_, rfl, rfl, mem_cons_self, _, rfl, mem_cons_self, rfl, rfl⟩
  exact ⟨s, t, hs, hresets, hmem, ht, hmem', hzero, hinc⟩

/-- The same failed flush with a reader that is done before the buffer is detached. -/
def earlyReader : List Label :=
  [.openForRead (.found 1 ⟨0, 1⟩), .checkSeqNumber (.opened 1 ⟨0, 1⟩ ⟨0, .read false, 1⟩),
    .closeReader (.ready ⟨0, 1⟩ ⟨0, .read false, 1⟩), .work 0, .work 0]

theorem reset_without_descriptors_earlyReader :
    ∃ s, exec (step oneAttempt) {} (filled ++ flushFails ++ earlyReader) = some s ∧
      s.resets oneAttempt 0 = true ∧
      (∀ rid, s.resets oneAttempt rid = true → ∀ d ∈ s.descs, d.rid ≠ rid) ∧
      ∀ d ∈ s.descs, 0 < (s.regions d.rid).counter d.mode ∧ d.inc = s.incarnation d.rid := by
  obtain ⟨s, hs, hresets⟩ :
      ∃ s, exec (step oneAttempt) {} (filled ++ flushFails ++ earlyReader) = some s ∧
        s.resets oneAttempt 0 = true := ⟨_, rfl, rfl⟩
  exact ⟨s, hs, hresets, reset_without_descriptors hs (by decide)⟩

end CacheLib.Navy
