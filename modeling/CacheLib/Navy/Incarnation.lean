/-
A reader reads the incarnation its index lookup named.

The comment in `RegionManager::openForRead` gives the argument as an order of four
reader steps against four reclaim steps. As an invariant it has three parts.

An index entry is of the present incarnation of its region, and the region has not
come to the end of its eviction. A reader that has looked up an entry, and whose
sequence number is still the present one, is in the same position: the region can
only leave it by raising the sequence number. And a reader that has passed the
second look at the sequence number has the region open, so that neither the reset
nor, for a reader in memory, the loss of the buffer can happen before it closes.

Not part of these runs are a flush that is given up and the reclaims that leave entries
in the index: one that cannot read the region back from the device or finds a header
that does not check out, and one whose callback throws.
-/
import CacheLib.Navy.Descriptors

set_option autoImplicit false

namespace CacheLib.Navy

open Transition Function List Option Phase Region

/-! ## What each phase says about the bytes -/

/-- The phases of the cleanup after a failed flush. -/
def Phase.failed : Phase → Bool
  | .cleaning => true
  | .cleaningEntries => true
  | .cleaned => true
  | .detached => true
  | .cleanupBumped => true
  | _ => false

/-- The phases in which the region has a buffer. -/
def Phase.buffered : Phase → Bool
  | .allocating => true
  | .flushing _ => true
  | .written => true
  | .flushed => true
  | _ => false

/-- The phases in which the bytes of the incarnation are on the device, and a reader
is sent there. -/
def Phase.onDevice : Phase → Bool
  | .flushed => true
  | .untracked => true
  | .tracked => true
  | .evicted => true
  | .marked => true
  | .evicting => true
  | .unlinked => true
  | .bumped => true
  | .blocking => true
  | .drained => true
  | _ => false

/-- The phases before `kFlushed` is set. -/
def Phase.unflushed : Phase → Bool
  | .resetDone => true
  | .clean => true
  | .taken => true
  | .allocating => true
  | .flushing _ => true
  | .written => true
  | _ => false

/-- The phases in which the index may name the region. -/
def Phase.linked : Phase → Bool
  | .allocating => true
  | .flushing _ => true
  | .written => true
  | .flushed => true
  | .untracked => true
  | .tracked => true
  | .evicted => true
  | .marked => true
  | .evicting => true
  | _ => false

/-- The phases before the sequence number is raised. -/
def Phase.alive (p : Phase) : Bool := p.linked || p == .unlinked

/-- A region and its place on the device agree with the phase. -/
structure Bytes (inc device : ℕ) (p : Phase) (r : Region ℕ) : Prop where
  notFailed : p.failed = false
  buffered : p.buffered = true → r.buffer = some inc
  bare : p.buffered = false → r.buffer = none
  onDevice : p.onDevice = true → device = inc
  written : p = .written → device = inc
  unflushed : p.unflushed = true → r.flushed = false

/-- An index entry that may be followed. -/
structure EntryOk (s : State) (e : Entry) : Prop where
  inc : e.inc = s.incarnation e.rid
  linked : (s.phase e.rid).linked = true
  items : (s.regions e.rid).numItems ≠ 0

/-- An entry that a reader may still follow. -/
structure AliveAt (s : State) (e : Entry) : Prop where
  inc : e.inc = s.incarnation e.rid
  alive : (s.phase e.rid).alive = true

/-- The bytes a descriptor reads from are there. -/
def Reads (s : State) (d : Desc) : Prop :=
  match d.mode with
  | .read true => (s.phase d.rid).onDevice = true
  | .read false => (s.phase d.rid).buffered = true
  | .write => False

/-- What a reader knows. -/
def ReaderOk (s : State) : Reader → Prop
  | .seqRead q => q ≤ s.seqNumber
  | .found q e => q ≤ s.seqNumber ∧ (q = s.seqNumber → AliveAt s e)
  | .opened q e d => q ≤ s.seqNumber ∧ d.rid = e.rid ∧
      (q = s.seqNumber → AliveAt s e ∧ Reads s d)
  | .ready e d => d.rid = e.rid ∧ e.inc = s.incarnation e.rid ∧ Reads s d
  | .mismatched _ => True

structure Coherent (cfg : ManagerConfig) (s : State) : Prop where
  counted : Counted cfg s
  bytes : ∀ rid, Bytes (s.incarnation rid) (s.device rid) (s.phase rid) (s.regions rid)
  index : ∀ e ∈ s.index, EntryOk s e.2
  writers : ∀ d ∈ s.writers, d.mode = .write ∧ (s.regions d.rid).numItems ≠ 0
  readers : ∀ reader ∈ s.readers, ReaderOk s reader

variable {cfg : ManagerConfig} {s t : State} {rid : RegionId} {r : Region ℕ} {reader : Reader}
  {key : Key}

theorem coherent_init : Coherent cfg {} where
  counted := counted_init
  bytes := fun _ => ⟨rfl, fun h => absurd h Bool.false_ne_true, fun _ => rfl, fun _ => rfl,
    fun h => absurd h (by simp), fun h => absurd h Bool.false_ne_true⟩
  index := fun _ h => absurd h not_mem_nil
  writers := fun _ h => absurd h not_mem_nil
  readers := fun _ h => absurd h not_mem_nil

/-- What is read is of the present incarnation. -/
theorem Coherent.read_eq (h : Coherent cfg s) {d : Desc} (hd : Reads s d) :
    s.read d = some (s.incarnation d.rid) := by
  have hb := h.bytes d.rid
  unfold Reads at hd
  unfold State.read
  rcases hm : d.mode with _ | _ | _ <;> rw [hm] at hd
  · exact hd.elim
  · exact hb.buffered hd
  · exact congrArg some (hb.onDevice hd)

/-! ## The worker of a region -/

theorem Coherent.inMem_ne_zero (h : Coherent cfg s) {d : Desc} (hd : d ∈ s.descs)
    (hm : d.mode = .read false) : (s.regions d.rid).activeInMemReaders ≠ 0 := by
  have hpos := h.counted.counter_pos hd
  rw [hm] at hpos
  exact Nat.pos_iff_ne_zero.mp hpos

theorem mem_descs_of_desc (hmem : reader ∈ s.readers) {d : Desc}
    (hd : reader.desc = some d) : d ∈ s.descs :=
  mem_append_left _ (mem_filterMap.mpr ⟨reader, hmem, hd⟩)

/-- **What a reader knows stays true** over a step that does not lower the sequence
number. -/
theorem ReaderOk.transfer (h : ReaderOk s reader)
    (hseq : s.seqNumber ≤ t.seqNumber)
    (halive : ∀ e, AliveAt s e → t.seqNumber = s.seqNumber → AliveAt t e)
    (hopen : ∀ d, reader.desc = some d →
      t.incarnation d.rid = s.incarnation d.rid ∧ (Reads s d → Reads t d)) :
    ReaderOk t reader := by
  -- A reader with the number of the later state had the number of the earlier one, too.
  have hpresent : ∀ k, k ≤ s.seqNumber → k = t.seqNumber → t.seqNumber = s.seqNumber := by
    intro k hle hk
    exact Nat.le_antisymm (hk ▸ hle) hseq
  rcases reader with k | ⟨k, e⟩ | ⟨k, e, d⟩ | ⟨e, d⟩ | d
  · exact Nat.le_trans h hseq
  · obtain ⟨hle, ha⟩ := h
    refine ⟨Nat.le_trans hle hseq, fun hk => ?_⟩
    have hq := hpresent k hle hk
    exact halive e (ha (hk.trans hq)) hq
  · obtain ⟨hle, hrid, ha⟩ := h
    refine ⟨Nat.le_trans hle hseq, hrid, fun hk => ?_⟩
    have hq := hpresent k hle hk
    obtain ⟨hae, hrd⟩ := ha (hk.trans hq)
    exact ⟨halive e hae hq, (hopen d rfl).2 hrd⟩
  · obtain ⟨hrid, hinc, hrd⟩ := h
    refine ⟨hrid, ?_, (hopen d rfl).2 hrd⟩
    rw [← hrid, (hopen d rfl).1, hrid]
    exact hinc
  · trivial

theorem ReaderOk.congr (h : ReaderOk s reader)
    (hinc : t.incarnation = s.incarnation) (hphase : t.phase = s.phase)
    (hseq : t.seqNumber = s.seqNumber) : ReaderOk t reader := by
  apply h.transfer (Nat.le_of_eq hseq.symm)
  · intro e he _
    exact ⟨by rw [hinc]; exact he.inc, by rw [hphase]; exact he.alive⟩
  · intro d _
    refine ⟨by rw [hinc], fun hd => ?_⟩
    unfold Reads at hd ⊢
    rw [hphase]
    exact hd

/-- **A section of the worker.** -/
theorem Coherent.advance (h : Coherent cfg s) {p : Phase}
    {v : RegionId → ℕ} {q : ℕ} (hcounted : Counted cfg (s.setRegion rid r p))
    (hv : ∀ b ≠ rid, v b = s.device b) (hbytes : Bytes (s.incarnation rid) (v rid) p r)
    (hitems : r.numItems = (s.regions rid).numItems) (hseq : s.seqNumber ≤ q)
    (hlinked : (s.phase rid).linked = true →
      p.linked = true ∨ s.noEntries rid = true ∨ (s.regions rid).numItems = 0)
    (halive : (s.phase rid).alive = true → p.alive = true ∨ s.seqNumber < q)
    (hdevice : (s.phase rid).onDevice = true → p.onDevice = true)
    (hbuffer : (s.phase rid).buffered = true →
      p.buffered = true ∨ (s.regions rid).activeInMemReaders = 0) :
    Coherent cfg { s.setRegion rid r p with device := v, seqNumber := q } := by
  have hself : (s.setRegion rid r p).phase rid = p := update_self _ _ _
  have hother : ∀ b, b ≠ rid → (s.setRegion rid r p).phase b = s.phase b :=
    fun b hb => update_of_ne hb _ _
  have hnum : ∀ b, ((s.setRegion rid r p).regions b).numItems = (s.regions b).numItems := by
    intro b
    by_cases hb : b = rid
    · subst hb
      rw [State.setRegion]
      dsimp only
      rw [update_self, hitems]
    · rw [State.setRegion]
      dsimp only
      rw [update_of_ne hb]
  -- a reader with an open descriptor keeps its bytes
  have hreads : ∀ d, d ∈ s.descs → Reads s d → Reads (s.setRegion rid r p) d := by
    intro d hd hr
    by_cases hb : d.rid = rid
    · unfold Reads at hr ⊢
      rw [hb] at hr ⊢
      rw [hself]
      rcases hm : d.mode with _ | _ | _ <;> simp only [hm] at hr ⊢
      · rcases hbuffer hr with hp | hzero
        · exact hp
        · exact absurd (hb ▸ hzero) (h.inMem_ne_zero hd hm)
      · exact hdevice hr
    · unfold Reads at hr ⊢
      rw [hother _ hb]
      exact hr
  have haliveAt : ∀ e, AliveAt s e → q = s.seqNumber →
      AliveAt { s.setRegion rid r p with device := v, seqNumber := q } e := by
    intro e he hq
    refine ⟨he.inc, ?_⟩
    by_cases hb : e.rid = rid
    · have ha := he.alive
      rw [hb] at ha
      rcases halive ha with hp | hlt
      · change ((s.setRegion rid r p).phase e.rid).alive = true
        rw [hb, hself]
        exact hp
      · exact absurd (hq ▸ hlt) (Nat.lt_irrefl _)
    · change ((s.setRegion rid r p).phase e.rid).alive = true
      rw [hother _ hb]
      exact he.alive
  refine ⟨⟨hcounted.counter, hcounted.inc, hcounted.ok⟩, ?_, ?_, ?_, ?_⟩
  · intro b
    change Bytes (s.incarnation b) (v b) ((s.setRegion rid r p).phase b)
      (update s.regions rid r b)
    by_cases hb : b = rid
    · subst hb
      rw [hself, update_self]
      exact hbytes
    · rw [hother b hb, update_of_ne hb, hv b hb]
      exact h.bytes b
  · intro e he
    have hok := h.index e he
    refine ⟨hok.inc, ?_, ?_⟩
    · change ((s.setRegion rid r p).phase e.2.rid).linked = true
      by_cases hb : e.2.rid = rid
      · rw [hb, hself]
        have hl := hok.linked
        rw [hb] at hl
        rcases hlinked hl with hp | hnone | hzero
        · exact hp
        · have hne := all_eq_true.mp hnone e he
          exact absurd hb (by simpa using hne)
        · exact absurd hzero (hb ▸ hok.items)
      · rw [hother _ hb]
        exact hok.linked
    · exact fun hzero => hok.items ((hnum _).symm.trans hzero)
  · intro d hd
    obtain ⟨hm, hn⟩ := h.writers d hd
    exact ⟨hm, fun hzero => hn ((hnum _).symm.trans hzero)⟩
  · intro reader hmem
    exact (h.readers reader hmem).transfer hseq haliveAt fun d hd =>
      ⟨rfl, hreads d (mem_descs_of_desc hmem hd)⟩

/-- A reset is about its own region. -/
theorem resetRegion_of_ne (s : State) {rid b : RegionId} (hb : b ≠ rid) :
    (s.resetRegion rid).incarnation b = s.incarnation b
      ∧ (s.resetRegion rid).phase b = s.phase b
      ∧ (s.resetRegion rid).regions b = s.regions b :=
  ⟨update_of_ne hb _ _, update_of_ne hb _ _, update_of_ne hb _ _⟩

theorem Coherent.dead_of_resets (h : Coherent cfg s)
    (hr : s.resets cfg rid = true) :
    (s.phase rid).alive = false ∧ (s.phase rid).buffered = false := by
  have hfail := (h.bytes rid).notFailed
  unfold State.resets at hr
  rcases hp : s.phase rid <;> rw [hp] at hr hfail <;>
    simp_all [alive, linked, buffered, failed]

/-- **The reset.** -/
theorem Coherent.resetRegion (h : Coherent cfg s)
    (hr : s.resets cfg rid = true) : Coherent cfg (s.resetRegion rid) := by
  have hfree : ∀ d ∈ s.descs, d.rid ≠ rid := fun d hd =>
    h.counted.not_open (h.counted.counter_of_resets hr) hd
  obtain ⟨hnotAlive, hnotBuffered⟩ := h.dead_of_resets hr
  have hdead : ∀ e : Entry, (s.phase e.rid).alive = true → e.rid ≠ rid := by
    intro e ha hb
    rw [hb, hnotAlive] at ha
    exact Bool.false_ne_true ha
  refine ⟨h.counted.resetRegion hr, ?_, ?_, ?_, ?_⟩
  · intro b
    by_cases hb : b = rid
    · subst hb
      have hinc : (s.resetRegion b).phase b = .resetDone := update_self _ _ _
      have hregion : (s.resetRegion b).regions b = (s.regions b).reset :=
        update_self _ _ _
      rw [hinc, hregion]
      exact ⟨rfl, fun hp => absurd hp Bool.false_ne_true, fun _ => (h.bytes b).bare hnotBuffered,
        fun hp => absurd hp Bool.false_ne_true, fun hp => absurd hp (by simp), fun _ => rfl⟩
    · obtain ⟨hinc, hphase, hregion⟩ := resetRegion_of_ne s hb
      rw [hinc, hphase, hregion]
      exact h.bytes b
  · intro e he
    have hok := h.index e he
    have hb : e.2.rid ≠ rid := by
      apply hdead
      unfold alive
      rw [hok.linked, Bool.true_or]
    obtain ⟨hinc, hphase, hregion⟩ := resetRegion_of_ne s hb
    exact ⟨hinc ▸ hok.inc, hphase ▸ hok.linked, hregion ▸ hok.items⟩
  · intro d hd
    obtain ⟨hm, hn⟩ := h.writers d hd
    obtain ⟨-, -, hregion⟩ := resetRegion_of_ne s (hfree d (mem_append_right _ hd))
    exact ⟨hm, hregion ▸ hn⟩
  · intro reader hmem
    refine ReaderOk.transfer (h.readers reader hmem) (Nat.le_refl s.seqNumber) ?_ ?_
    · intro e he _
      obtain ⟨hinc, hphase, -⟩ := resetRegion_of_ne s (hdead e he.alive)
      exact ⟨hinc ▸ he.inc, hphase ▸ he.alive⟩
    · -- An open descriptor is of another region, which the reset does not touch.
      intro d hd
      obtain ⟨hinc, hphase, -⟩ := resetRegion_of_ne s (hfree d (mem_descs_of_desc hmem hd))
      refine ⟨hinc, fun hrd => ?_⟩
      unfold Reads at hrd ⊢
      rw [hphase]
      exact hrd

/-- `p'` comes after `p` with nothing changed for a reader, the index or the bytes. -/
def Phase.quietly (p p' : Phase) : Bool :=
  !p'.failed && p'.buffered == p.buffered && p'.onDevice == p.onDevice
    && (!p'.unflushed || p.unflushed) && p' != .written && p'.linked == p.linked
    && p'.alive == p.alive

/-- A section that only sets flags that no reader looks at. -/
theorem Coherent.advance_quietly (h : Coherent cfg s)
    {p p' : Phase} (hp : s.phase rid = p) (hcounted : Counted cfg (s.setRegion rid r p'))
    (hbuffer : r.buffer = (s.regions rid).buffer) (hflushed : r.flushed = (s.regions rid).flushed)
    (hitems : r.numItems = (s.regions rid).numItems) (hquiet : p.quietly p' = true) :
    Coherent cfg (s.setRegion rid r p') := by
  have hb := h.bytes rid
  unfold quietly at hquiet
  simp only [Bool.and_eq_true, Bool.not_eq_true', beq_iff_eq, bne_iff_ne, ne_eq,
    Bool.or_eq_true] at hquiet
  obtain ⟨⟨⟨⟨⟨⟨hfail, hbuf⟩, hdev⟩, hun⟩, hwr⟩, hlink⟩, halive⟩ := hquiet
  rw [hp] at hb
  refine h.advance (v := s.device) (q := s.seqNumber) hcounted (fun _ _ => rfl)
    ⟨hfail, ?_, ?_, ?_, ?_, ?_⟩ hitems (Nat.le_refl _) ?_ ?_ ?_ ?_
  · intro hq
    exact hbuffer.trans (hb.buffered (hbuf ▸ hq))
  · intro hq
    exact hbuffer.trans (hb.bare (hbuf ▸ hq))
  · intro hq
    exact hb.onDevice (hdev ▸ hq)
  · intro hq
    exact absurd hq hwr
  · intro hq
    rw [hq] at hun
    exact hflushed.trans (hb.unflushed (hun.resolve_left (by simp)))
  · rw [hp, hlink]
    exact Or.inl
  · rw [hp, halive]
    exact Or.inl
  · rw [hp, hdev]
    exact id
  · rw [hp, hbuf]
    exact Or.inl

theorem Coherent.readersStayOut (h : Coherent cfg s) (l : Label) : ReadersStayOut s l := by
  rcases l with _ | _ | reader | _ | _ | _ | _ | _ | _ | _ | _ | _ | _ | _ | _ | _ | _ | rid
  case openForRead =>
    rcases reader with _ | ⟨q, e⟩ | _ | _ | _
    case found =>
      have hfail := (h.bytes e.rid).notFailed
      change (s.phase e.rid).cleanupDetached = false
      rcases hp : s.phase e.rid <;> rw [hp] at hfail <;>
        simp_all [failed, cleanupDetached]
    all_goals trivial
  case work =>
    intro hp
    have hfail := (h.bytes rid).notFailed
    rw [hp] at hfail
    exact absurd hfail (by simp [failed])
  all_goals trivial

theorem Coherent.work (h : Coherent cfg s) (hwork : s.work cfg rid = some t) :
    Coherent cfg t := by
  have hb := h.bytes rid
  have hcounted := h.counted.work (h.readersStayOut (.work rid)) hwork
  unfold State.work at hwork
  rcases hp : s.phase rid with _ | _ | _ | _ | _ | _ | _ | _ | _ | _ | _ | _ | k | _ | _ | _ | _ |
    _ | _ | _ | _
  all_goals rw [hp] at hb
  all_goals simp only [hp, ite_none_right_eq_some, some.injEq] at hwork
  case evicted =>
    subst hwork
    apply h.advance_quietly hp hcounted <;> first
      | rfl
      | (unfold readyForReclaim; split_ifs <;> rfl)
  case marked | blocking =>
    obtain ⟨-, rfl⟩ := hwork
    exact h.advance_quietly hp hcounted rfl rfl rfl rfl
  case resetDone | untracked =>
    subst hwork
    exact h.advance_quietly hp hcounted rfl rfl rfl rfl
  case evicting =>
    -- the callback is done: nothing in the index names the region any more
    obtain ⟨hdone, rfl⟩ := hwork
    have hgone : s.noEntries rid = true ∨ (s.regions rid).numItems = 0 := by
      rcases Bool.or_eq_true_iff.mp hdone with hzero | hnone
      · exact Or.inr (of_decide_eq_true hzero)
      · exact Or.inl hnone
    refine h.advance (v := s.device) (q := s.seqNumber) hcounted (fun _ _ => rfl)
      ⟨rfl, by simp [buffered], fun _ => hb.bare rfl, fun _ => hb.onDevice rfl, by simp,
        by simp [unflushed]⟩ rfl (Nat.le_refl _) (fun _ => Or.inr hgone) (fun _ => Or.inl rfl)
      (fun _ => rfl) ?_
    rw [hp]
    simp [buffered]
  case unlinked =>
    -- what is left behind are readers with an old sequence number
    subst hwork
    refine h.advance (v := s.device) (q := s.seqNumber + 1)
      ⟨hcounted.counter, hcounted.inc, hcounted.ok⟩ (fun _ _ => rfl)
      ⟨rfl, by simp [buffered], fun _ => hb.bare rfl, fun _ => hb.onDevice rfl, by simp,
        by simp [unflushed]⟩ rfl (Nat.le_succ _) ?_ (fun _ => Or.inr (Nat.lt_succ_self _))
      (fun _ => rfl) ?_
    · rw [hp]
      simp [linked]
    · rw [hp]
      simp [buffered]
  case bumped =>
    by_cases hallow : cfg.allowReadDuringReclaim = true
    · rw [if_pos hallow, some.injEq] at hwork
      subst hwork
      exact h.advance_quietly hp hcounted rfl rfl rfl rfl
    · rw [if_neg hallow, some.injEq] at hwork
      subst hwork
      exact h.resetRegion (by simp [State.resets, hp, hallow])
  case drained =>
    subst hwork
    exact h.resetRegion (by simp [State.resets, hp])
  case written =>
    subst hwork
    refine h.advance (v := s.device) (q := s.seqNumber) hcounted (fun _ _ => rfl)
      ⟨rfl, fun _ => hb.buffered rfl, by simp [buffered], fun _ => hb.written rfl, by simp,
        by simp [unflushed]⟩ rfl (Nat.le_refl _) (fun _ => Or.inl rfl) (fun _ => Or.inl rfl) ?_
      (fun _ => Or.inl rfl)
    rw [hp]
    simp [onDevice]
  case flushed =>
    -- `detachBuffer` has waited for the readers in memory
    obtain ⟨hmem, rfl⟩ := hwork
    exact h.advance (v := s.device) (q := s.seqNumber) hcounted (fun _ _ => rfl)
      ⟨rfl, by simp [buffered], fun _ => rfl, fun _ => hb.onDevice rfl, by simp,
        by simp [unflushed]⟩ rfl (Nat.le_refl _) (fun _ => Or.inl rfl) (fun _ => Or.inl rfl)
      (fun _ => rfl) (fun _ => Or.inr hmem)
  case cleaning | cleaningEntries | cleaned | detached | cleanupBumped =>
    exact absurd hb.notFailed (by simp [failed])
  all_goals exact absurd hwork (by simp)

/-! ## Readers, writers and the index -/

/-- **A step of a reader or a writer.** -/
theorem Coherent.reframe (h : Coherent cfg s) (hcounted : Counted cfg t)
    (hinc : t.incarnation = s.incarnation) (hdevice : t.device = s.device)
    (hphase : t.phase = s.phase) (hseq : t.seqNumber = s.seqNumber)
    (hbuffer : ∀ rid, (t.regions rid).buffer = (s.regions rid).buffer)
    (hflushed : ∀ rid, (t.regions rid).flushed = (s.regions rid).flushed)
    (hitems : ∀ rid, (s.regions rid).numItems ≠ 0 → (t.regions rid).numItems ≠ 0)
    (hindex : ∀ e ∈ t.index, e ∈ s.index ∨ EntryOk s e.2)
    (hwriters : ∀ d ∈ t.writers, d ∈ s.writers ∨
      d.mode = .write ∧ (t.regions d.rid).numItems ≠ 0)
    (hreaders : ∀ reader ∈ t.readers, reader ∈ s.readers ∨ ReaderOk s reader) :
    Coherent cfg t := by
  refine ⟨hcounted, ?_, ?_, ?_, ?_⟩
  · intro rid
    have hb := h.bytes rid
    rw [hinc, hdevice, hphase]
    refine ⟨hb.notFailed, ?_, ?_, hb.onDevice, hb.written, ?_⟩
    · rw [hbuffer]
      exact hb.buffered
    · rw [hbuffer]
      exact hb.bare
    · rw [hflushed]
      exact hb.unflushed
  · intro e he
    have hok : EntryOk s e.2 := (hindex e he).elim (h.index e) id
    exact ⟨by rw [hinc]; exact hok.inc, by rw [hphase]; exact hok.linked, hitems _ hok.items⟩
  · intro d hd
    rcases hwriters d hd with hold | hnew
    · exact ⟨(h.writers d hold).1, hitems _ (h.writers d hold).2⟩
    · exact hnew
  · intro reader hmem
    have hok : ReaderOk s reader := (hreaders reader hmem).elim (h.readers reader) id
    exact hok.congr hinc hphase hseq

/-- What a writer puts in the index may be followed. -/
theorem Coherent.entryOk_of_writer (h : Coherent cfg s) {d : Desc} (hd : d ∈ s.writers) :
    EntryOk s d.entry := by
  obtain ⟨hmode, hitems⟩ := h.writers d hd
  have hopen : d ∈ s.descs := mem_append_right _ hd
  have hpos := h.counted.counter_pos hopen
  rw [hmode] at hpos
  refine ⟨h.counted.inc d hopen, ?_, hitems⟩
  change (s.phase d.rid).linked = true
  have hmay : (s.phase d.rid).mayWrite = true := by
    by_contra hno
    have hzero := (h.counted.ok d.rid).writers (by simpa using hno)
    exact absurd hzero (Nat.pos_iff_ne_zero.mp hpos)
  have hfail := (h.bytes d.rid).notFailed
  rcases hp : s.phase d.rid <;> rw [hp] at hmay hfail <;>
    simp_all [mayWrite, failed, linked]

theorem Coherent.aliveAt_of_lookup (h : Coherent cfg s) {e : Entry}
    (hlookup : s.index.lookup key = some e) : AliveAt s e := by
  obtain ⟨l₁, l₂, hsplit, -⟩ := lookup_eq_some_iff.mp hlookup
  have hmem : (key, e) ∈ s.index := by
    rw [hsplit]
    exact mem_append_right _ mem_cons_self
  have hok := h.index _ hmem
  refine ⟨hok.inc, ?_⟩
  unfold alive
  rw [hok.linked, Bool.true_or]

/-- The mode `openForRead` chooses is where the bytes are. -/
theorem Coherent.reads_of_open (h : Coherent cfg s) {e : Entry} (ha : AliveAt s e) (k : ℕ) :
    Reads s ⟨e.rid, .read (s.regions e.rid).physReadMode, k⟩ := by
  have hb := h.bytes e.rid
  have halive := ha.alive
  unfold Reads physReadMode
  rcases hp : s.phase e.rid <;> rw [hp] at hb halive
  case allocating | flushing | written =>
    -- a buffer that is not flushed: the read is from memory
    rw [hb.unflushed rfl, hb.buffered rfl]
    rfl
  case flushed =>
    rcases (s.regions e.rid).flushed with _ | _
    · rw [hb.buffered rfl]
      rfl
    · rfl
  case untracked | tracked | evicted | marked | evicting | unlinked =>
    rw [hb.bare rfl, isNone_none, Bool.or_true]
    rfl
  all_goals exact absurd halive (by simp [alive, linked])

theorem mem_setReader {reader r : Reader} {next : Option Reader}
    (h : r ∈ (s.setReader reader next).readers) : r ∈ s.readers ∨ next = some r := by
  rcases mem_append.mp h with hnew | hold
  · exact Or.inr (mem_toList.mp hnew)
  · exact Or.inl (mem_of_mem_erase hold)

theorem mem_setEntry {entry : Option Entry} {e : Key × Entry}
    (h : e ∈ (s.setEntry key entry).index) : e ∈ s.index ∨ entry = some e.2 := by
  rcases mem_append.mp h with hnew | hold
  · rw [mem_toList, map_eq_some_iff] at hnew
    obtain ⟨x, hx, rfl⟩ := hnew
    exact Or.inr hx
  · exact Or.inl (mem_of_mem_filter hold)

/-- A step of a reader that does not touch the region. -/
theorem Coherent.setReader (h : Coherent cfg s) {next : Option Reader}
    (hcounted : Counted cfg (s.setReader reader next))
    (hnext : ∀ r, next = some r → ReaderOk s r) : Coherent cfg (s.setReader reader next) :=
  h.reframe hcounted rfl rfl rfl rfl (fun _ => rfl) (fun _ => rfl) (fun _ => id)
    (fun _ => Or.inl) (fun _ => Or.inl) (fun r hr => (mem_setReader hr).imp_right (hnext r))

theorem Coherent.setEntry (h : Coherent cfg s) {entry : Option Entry}
    (hentry : ∀ e, entry = some e → EntryOk s e) : Coherent cfg (s.setEntry key entry) :=
  h.reframe ⟨h.counted.counter, h.counted.inc, h.counted.ok⟩ rfl rfl rfl rfl (fun _ => rfl)
    (fun _ => rfl) (fun _ => id) (fun e he => (mem_setEntry he).imp_right (hentry e.2))
    (fun _ => Or.inl) (fun _ => Or.inl)

/-- A change of the region's counters is no change for the bytes. -/
theorem field_update {γ : Type} (f : Region ℕ → γ)
    (h : f r = f (s.regions rid)) (b : RegionId) :
    f (update s.regions rid r b) = f (s.regions b) := by
  by_cases hb : b = rid
  · subst hb
    rw [update_self, h]
  · rw [update_of_ne hb]

theorem items_update (h : r.numItems = (s.regions rid).numItems)
    (b : RegionId) (hb : (s.regions b).numItems ≠ 0) :
    (update s.regions rid r b).numItems ≠ 0 :=
  fun hzero => hb ((field_update numItems h b).symm.trans hzero)

theorem close_fields (r : Region ℕ) (m : OpenMode) :
    (r.close m).buffer = r.buffer ∧ (r.close m).flushed = r.flushed ∧
      (r.close m).numItems = r.numItems := by
  rcases m with _ | _ | _ <;> exact ⟨rfl, rfl, rfl⟩

/-- **One step** of a run in which no flush is given up. -/
theorem Coherent.step (h : Coherent cfg s) {l : Label} (hl : ∀ rid, l ≠ .giveUp rid)
    (hstep : step cfg s l = some t) : Coherent cfg t := by
  have hcounted := h.counted.step (h.readersStayOut l) hstep
  rcases l with _ | ⟨reader, key⟩ | reader | reader | reader | reader | ⟨rid, size⟩ | ⟨desc, key⟩ |
    desc | key | rid | ⟨rid, available⟩ | rid | ⟨rid, ok, torn⟩ | rid | rid | ⟨rid, key, reinserted⟩ |
    rid
  all_goals simp only [Navy.step, ite_none_right_eq_some, some.injEq] at hstep
  case getSeqNumber =>
    subst hstep
    refine h.reframe hcounted rfl rfl rfl rfl (fun _ => rfl) (fun _ => rfl) (fun _ => id)
      (fun _ => Or.inl) (fun _ => Or.inl) ?_
    intro r hr
    rcases mem_cons.mp hr with rfl | hold
    · exact Or.inr (Nat.le_refl _)
    · exact Or.inl hold
  case lookup =>
    obtain ⟨hmem, hstep⟩ := hstep
    have hok := h.readers reader hmem
    rcases reader with q | _ | _ | _ | _ <;> simp only [reduceCtorEq, some.injEq] at hstep
    subst hstep
    apply h.setReader hcounted
    intro r hr
    rw [map_eq_some_iff] at hr
    obtain ⟨e, he, rfl⟩ := hr
    exact ⟨hok, fun _ => h.aliveAt_of_lookup he⟩
  case openForRead =>
    obtain ⟨hmem, hstep⟩ := hstep
    have hok := h.readers reader hmem
    rcases reader with _ | ⟨q, e⟩ | _ | _ | _ <;> simp only [reduceCtorEq] at hstep
    rcases hopen : (s.regions e.rid).openForRead with _ | ⟨phys, r⟩
    · rw [hopen, some.injEq] at hstep
      subst hstep
      exact h.setReader hcounted (fun r hr => absurd hr (by simp))
    rw [hopen, some.injEq] at hstep
    -- only a counter changes, and the mode is the one of `physReadMode`
    obtain ⟨-, rfl, -, hbuf, hfl, hnum⟩ := openForRead_eq_some hopen
    subst hstep
    refine h.reframe hcounted rfl rfl (update_eq_self _ _) rfl
      (field_update buffer hbuf) (field_update flushed hfl) (items_update hnum)
      (fun _ => Or.inl) (fun _ => Or.inl) ?_
    intro r' hr'
    refine (mem_setReader hr').imp_right fun hnew => ?_
    rw [← some.inj hnew]
    exact ⟨hok.1, rfl, fun hq => ⟨hok.2 hq, h.reads_of_open (hok.2 hq) _⟩⟩
  case checkSeqNumber =>
    obtain ⟨hmem, hstep⟩ := hstep
    have hok := h.readers reader hmem
    rcases reader with _ | _ | ⟨q, e, d⟩ | _ | _ <;>
      simp only [reduceCtorEq, some.injEq] at hstep
    subst hstep
    apply h.setReader hcounted
    intro r hr
    rw [← some.inj hr]
    obtain ⟨-, hrid, ha⟩ := hok
    split_ifs with hseq
    · -- the number has not changed since before the lookup
      exact ⟨hrid, (ha hseq.symm).1.inc, (ha hseq.symm).2⟩
    · trivial
  case read =>
    obtain ⟨-, hstep⟩ := hstep
    rcases reader with _ | _ | _ | _ | _ <;> simp only [reduceCtorEq, some.injEq] at hstep
    exact hstep ▸ h
  case closeReader =>
    obtain ⟨-, hstep⟩ := hstep
    rcases reader with _ | _ | _ | ⟨e, d⟩ | d <;>
      simp only [reduceCtorEq, some.injEq] at hstep
    all_goals
      subst hstep
      obtain ⟨hbuf, hfl, hnum⟩ := close_fields (s.regions d.rid) d.mode
      refine h.reframe hcounted rfl rfl (update_eq_self _ _) rfl
        (field_update buffer hbuf) (field_update flushed hfl) (items_update hnum)
        (fun _ => Or.inl) (fun _ => Or.inl) ?_
      intro r hr
      exact (mem_setReader hr).imp_right fun hnew => absurd hnew (by simp)
  case openAndAllocate =>
    obtain ⟨hphase, hstep⟩ := hstep
    rcases hopen : (s.regions rid).openAndAllocate cfg.regionSize size with _ | ⟨offset, r⟩
    · rw [hopen, some.injEq] at hstep
      exact hstep ▸ h
    rw [hopen, some.injEq] at hstep
    unfold openAndAllocate at hopen
    rw [ite_none_right_eq_some, some.injEq, Prod.mk.injEq] at hopen
    obtain ⟨-, -, rfl⟩ := hopen
    subst hstep
    have hsame : update s.phase rid .allocating = s.phase := by
      rw [← hphase]
      exact update_eq_self _ _
    refine h.reframe hcounted rfl rfl hsame rfl (field_update buffer rfl)
      (field_update flushed rfl) ?_ (fun _ => Or.inl) ?_ (fun _ => Or.inl)
    · intro b hb
      change (update s.regions rid _ b).numItems ≠ 0
      by_cases hrid : b = rid
      · subst hrid
        rw [update_self]
        exact Nat.succ_ne_zero _
      · rw [update_of_ne hrid]
        exact hb
    · intro d hd
      refine (mem_cons.mp hd).symm.imp_right fun hnew => ?_
      subst hnew
      refine ⟨rfl, ?_⟩
      change (update s.regions rid _ rid).numItems ≠ 0
      rw [update_self]
      exact Nat.succ_ne_zero _
  case updateIndex =>
    obtain ⟨hmem, rfl⟩ := hstep
    apply h.setEntry
    intro e he
    rw [← some.inj he]
    exact h.entryOk_of_writer hmem
  case closeWriter =>
    obtain ⟨-, rfl⟩ := hstep
    obtain ⟨hbuf, hfl, hnum⟩ := close_fields (s.regions desc.rid) desc.mode
    exact h.reframe hcounted rfl rfl (update_eq_self _ _) rfl
      (field_update buffer hbuf) (field_update flushed hfl) (items_update hnum)
      (fun _ => Or.inl) (fun d hd => Or.inl (mem_of_mem_erase hd)) (fun _ => Or.inl)
  case removeKey =>
    subst hstep
    exact h.setEntry fun e he => absurd he (by simp)
  case getCleanRegion | doFlush | evict =>
    obtain ⟨hphase, rfl⟩ := hstep
    exact h.advance_quietly hphase hcounted rfl rfl rfl rfl
  case assignBuffer =>
    obtain ⟨hphase, hstep⟩ := hstep
    have hb := h.bytes rid
    rw [hphase] at hb
    split_ifs at hstep <;> rw [some.injEq] at hstep <;> subst hstep
    · refine h.advance (v := s.device) (q := s.seqNumber) hcounted (fun _ _ => rfl)
        ⟨rfl, fun _ => rfl, by simp [buffered], by simp [onDevice], by simp,
          fun _ => hb.unflushed rfl⟩ rfl (Nat.le_refl _) (fun _ => Or.inl rfl)
        (fun _ => Or.inl rfl) ?_ (fun _ => Or.inl rfl)
      rw [hphase]
      simp [onDevice]
    · exact h.advance_quietly hphase hcounted rfl rfl rfl rfl
  case deviceWrite =>
    have hb := h.bytes rid
    rcases hp : s.phase rid <;> simp only [hp, reduceCtorEq] at hstep
    rw [hp] at hb
    split_ifs at hstep with hlimit hwriters hok <;> rw [some.injEq] at hstep <;>
      subst hstep
    · exact h
    -- a write that fails leaves the region in its buffer as well
    all_goals
      refine h.advance (q := s.seqNumber) ⟨hcounted.counter, hcounted.inc, hcounted.ok⟩
        (fun b hb => update_of_ne hb _ _)
        ⟨rfl, fun _ => hb.buffered rfl, by simp [buffered], by simp [onDevice], by simp,
fun _ => hb.unflushed rfl⟩ rfl (Nat.le_refl _) (fun _ => Or.inl rfl)
        (fun _ => Or.inl rfl) ?_ (fun _ => Or.inl rfl)
      rw [hp]
      simp [onDevice]
  case giveUp => exact absurd rfl (hl rid)
  case evictEntry =>
    obtain ⟨⟨-, -, hdesc⟩, rfl⟩ := hstep
    apply h.setEntry
    intro e he
    rw [map_eq_some_iff] at he
    obtain ⟨d, hd, rfl⟩ := he
    exact h.entryOk_of_writer (hdesc d hd)
  case work => exact h.work hstep

/-! ## Every run -/

theorem coherent_of_run {ls : List Label} (hrun : exec (step cfg) {} ls = some s)
    (hflush : ∀ rid, Label.giveUp rid ∉ ls) : Coherent cfg s := by
  have hkeep : ∀ (s : State) (l : Label) (t : State), Coherent cfg s →
      (∀ rid, l ≠ .giveUp rid) → step cfg s l = some t → Coherent cfg t :=
    fun _ _ _ hs hl ht => hs.step hl ht
  refine exec_invariant_along hkeep hrun (Along.of_forall ?_) coherent_init
  intro l hl _ rid e
  exact hflush rid (e ▸ hl)

/-- **The reader's incarnation.** In every interleaving of lookups with writers,
flushes that get through and reclaim, a reader whose `openForRead` returned Ready has
open the region its index entry named, in the incarnation the entry was written in,
and reads bytes of that incarnation. -/
theorem reader_reads_its_incarnation {ls : List Label} (hrun : exec (step cfg) {} ls = some s)
    (hflush : ∀ rid, Label.giveUp rid ∉ ls) {e : Entry} {d : Desc}
    (hready : Reader.ready e d ∈ s.readers) :
    d.rid = e.rid ∧ s.incarnation e.rid = e.inc ∧ s.read d = some e.inc ∧
      s.resets cfg e.rid = false ∧ ∀ w ∈ s.writers, w.rid = e.rid → w.inc = e.inc := by
  have h := coherent_of_run hrun hflush
  obtain ⟨hrid, hinc, hreads⟩ := h.readers _ hready
  have hopen : d ∈ s.descs := mem_descs_of_desc hready rfl
  refine ⟨hrid, hinc.symm, ?_, ?_, ?_⟩
  · rw [h.read_eq hreads, hrid, hinc]
  · by_contra hyes
    have hzero := h.counted.counter_of_resets (by simpa using hyes)
    exact h.counted.not_open hzero hopen hrid
  · intro w hw hwrid
    rw [h.counted.inc w (mem_append_right _ hw), hwrid, hinc]

/-- The region is filled and flushed, and its reclaim is under way when the reader
opens it. -/
def readDuringReclaim : List Label :=
  filled ++ [.doFlush 0, .deviceWrite 0 true 0, .work 0, .work 0, .work 0, .evict 0, .work 0,
    .work 0, .evictEntry 0 5 none, .work 0, .openForRead (.found 1 ⟨0, 1⟩),
    .checkSeqNumber (.opened 1 ⟨0, 1⟩ ⟨0, .read true, 1⟩), .work 0, .work 0]

theorem reader_reads_its_incarnation_readDuringReclaim :
    ∃ s, exec (step oneAttempt) {} readDuringReclaim = some s ∧ s.phase 0 = .blocking ∧
      s.read ⟨0, .read true, 1⟩ = some 1 ∧ s.resets oneAttempt 0 = false := by
  obtain ⟨s, hrun, hphase, hready⟩ :
      ∃ s, exec (step oneAttempt) {} readDuringReclaim = some s ∧ s.phase 0 = .blocking ∧
        Reader.ready ⟨0, 1⟩ ⟨0, .read true, 1⟩ ∈ s.readers :=
    ⟨_, rfl, rfl, mem_cons_self⟩
  have hflush : ∀ rid, Label.giveUp rid ∉ readDuringReclaim := by
    intro rid
    simp [readDuringReclaim, filled]
  obtain ⟨-, -, hread, hreset, -⟩ := reader_reads_its_incarnation hrun hflush hready
  exact ⟨s, hrun, hphase, hread, hreset⟩

/-- A region that the index names has its bytes in the buffer or on the device. -/
theorem Phase.buffered_or_onDevice {p : Phase} (h : p.linked = true) :
    p.buffered = true ∨ p.onDevice = true := by
  cases p <;> simp_all [linked, buffered, onDevice]

/-- **The index names bytes that are there.** In every interleaving in which no flush is given up
and every reclaim removes or reinserts all entries of its region, an entry of the index is of the
present incarnation of its region, and so is whatever is open of it; the bytes of this incarnation
are in the buffer of the region or in its place on the device. -/
theorem index_names_present_bytes {ls : List Label} (hrun : exec (step cfg) {} ls = some s)
    (hflush : ∀ rid, Label.giveUp rid ∉ ls) {key : Key} {e : Entry} (hentry : (key, e) ∈ s.index) :
    s.incarnation e.rid = e.inc ∧ (∀ d ∈ s.descs, d.rid = e.rid → d.inc = e.inc) ∧
      ((s.regions e.rid).buffer = some e.inc ∨ s.device e.rid = e.inc) := by
  have h := coherent_of_run hrun hflush
  obtain ⟨hinc, hlinked, -⟩ := h.index _ hentry
  refine ⟨hinc.symm, fun d hd hrid => ?_, ?_⟩
  · rw [h.counted.inc d hd, hrid, hinc]
  · rw [hinc]
    exact (buffered_or_onDevice hlinked).imp (h.bytes e.rid).buffered (h.bytes e.rid).onDevice

theorem index_names_present_bytes_filled :
    ∃ s, exec (step oneAttempt) {} filled = some s ∧ (5, ⟨0, 1⟩) ∈ s.index ∧ s.incarnation 0 = 1 ∧
      ((s.regions 0).buffer = some 1 ∨ s.device 0 = 1) := by
  obtain ⟨s, hrun, hentry⟩ : ∃ s, exec (step oneAttempt) {} filled = some s ∧
      (5, ⟨0, 1⟩) ∈ s.index := ⟨_, rfl, mem_cons_self⟩
  have hflush : ∀ rid, Label.giveUp rid ∉ filled := fun rid => by simp [filled]
  obtain ⟨hinc, -, hbytes⟩ := index_names_present_bytes hrun hflush hentry
  exact ⟨s, hrun, hentry, hinc, hbytes⟩

end CacheLib.Navy
