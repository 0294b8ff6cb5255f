/-
Every chunk of an `AllocationClass` is in exactly one place.

The invariant says that a chunk of a slab the class owns occurs once over all
places, and everything else nowhere. The second thing to carry is which slabs are
in release. A chunk of such a slab is not on the free list, except in the gap
between the two locked sections in which `startSlabRelease` marks the slab and
takes the free list: there another thread can still allocate from the slab, and
the chunk is then reported as active.
-/
import CacheLib.Allocator.ChunkAccounting

set_option autoImplicit false

namespace CacheLib.AllocationClass

open Transition Function List Option AllocationClass.Class

variable {cfg : Config}

/-! ## The system -/

structure System.Inv (cfg : Config) (s : System) : Prop where
  cls : s.cls.Inv cfg
  once : ∀ a, s.weight cfg a = if a.2 < cfg.allocsPerSlab then s.cls.owned cfg a.1 else 0
  inRelease : ∀ b, (s.cls.slabReleaseAllocMap b).isSome ↔
    b ∈ s.contexts ∨ s.startingSlab = some b
  contexts : s.contexts.Nodup
  notStarting : ∀ b ∈ s.contexts, s.startingSlab ≠ some b
  freed : ∀ a ∈ s.cls.freedAllocations, (s.cls.slabReleaseAllocMap a.1).isSome →
    s.starting = some (a.1, .swap)
  pruning : ∀ slab p, s.starting = some (slab, p) → s.cls.Pruned cfg slab p

namespace System

variable {s t : System} {cls : Class} {slab : Slab}

theorem inv_init : ({} : System).Inv cfg where
  cls := ⟨fun _ => rfl, Nat.dvd_zero _, by simp, fun _ => rfl⟩
  once := by
    intro a
    simp [weight, offline, Class.weight, Class.inTail, Class.recorded, Class.owned]
  inRelease := by simp [startingSlab]
  contexts := nodup_nil
  notStarting := by simp
  freed := by simp
  pruning := by simp

variable (h : s.Inv cfg)

include h

theorem Inv.weight_le_one (a : Alloc) : s.weight cfg a ≤ 1 := by
  rw [h.once a]
  split_ifs
  · exact Class.owned_le_one a.1
  · exact Nat.zero_le 1

/-- A chunk that occurs anywhere is one of an owned slab. -/
theorem Inv.of_weight_pos {a : Alloc} (ha : 0 < s.weight cfg a) :
    a.2 < cfg.allocsPerSlab ∧ s.cls.Owns cfg a.1 := by
  rw [h.once a] at ha
  split_ifs at ha with hi
  · exact ⟨hi, owns_of_owned (Nat.pos_iff_ne_zero.mp ha)⟩
  · exact absurd ha (Nat.lt_irrefl 0)

/-- When a slab leaves, its chunks were nowhere else. -/
theorem Inv.once_of_leaves {c' : Class}
    (hleaves : s.cls.Leaves cfg slab c') (a : Alloc) :
    s.held.count a + s.offline.count a + c'.weight cfg a
      = if a.2 < cfg.allocsPerSlab then c'.owned cfg a.1 else 0 := by
  have honce := h.once a
  have hw := hleaves.weight a
  have hown := hleaves.owned a.1
  rw [weight] at honce
  split_ifs at honce hw ⊢ <;> omega

theorem Inv.handOut {out : Option Alloc × Class}
    (ha : s.cls.Allocates cfg out) : (s.handOut out).Inv cfg where
  cls := ha.inv
  once := by
    intro a
    have honce := h.once a
    have hw := ha.weight a
    -- An allocation changes no header, so the class owns what it owned.
    have howned : out.2.owned cfg a.1 = s.cls.owned cfg a.1 := by
      apply Class.owned_congr
      rw [ha.header]
    change (out.1.toList ++ s.held).count a + s.offline.count a + out.2.weight cfg a
      = if a.2 < cfg.allocsPerSlab then out.2.owned cfg a.1 else 0
    rw [howned, ← honce, count_append, weight]
    omega
  inRelease := by
    intro b
    change (out.2.slabReleaseAllocMap b).isSome ↔ _
    rw [ha.allocMap]
    exact h.inRelease b
  contexts := h.contexts
  notStarting := h.notStarting
  freed := by
    intro a hmem hrel
    change (out.2.slabReleaseAllocMap a.1).isSome at hrel
    rw [ha.allocMap] at hrel
    exact h.freed a (ha.freed hmem) hrel
  pruning := by
    intro slab p hp
    apply (h.pruning slab p hp).mono
    · intro b
      change (out.2.slabReleaseAllocMap b).isSome → _
      rw [ha.allocMap]
      exact id
    · intro i
      change _ → out.2.recorded cfg (slab, i) = true
      unfold Class.recorded
      rw [ha.allocMap]
      exact id

theorem Inv.addSlab (hnew : (s.cls.header slab).classId = none) :
    ({ s with cls := s.cls.addSlabLocked cfg slab } : System).Inv cfg where
  cls := addSlabLocked_inv h.cls hnew
  once := by
    intro a
    have honce := h.once a
    change s.held.count a + s.offline.count a + (s.cls.addSlabLocked cfg slab).weight cfg a
      = if a.2 < cfg.allocsPerSlab then (s.cls.addSlabLocked cfg slab).owned cfg a.1 else 0
    rw [addSlabLocked_weight, addSlabLocked_owned hnew]
    rw [weight] at honce
    split_ifs at honce ⊢ <;> omega
  inRelease := h.inRelease
  contexts := h.contexts
  notStarting := h.notStarting
  freed := h.freed
  pruning := fun slab p hp => (h.pruning slab p hp).mono (fun _ => id) (fun _ => id)

/-! ### Freeing, and the ends of a release -/

theorem Inv.isSome_of_context (hmem : slab ∈ s.contexts) :
    (s.cls.slabReleaseAllocMap slab).isSome := (h.inRelease slab).mpr (Or.inl hmem)

theorem Inv.free {alloc : Alloc} (hmem : alloc ∈ s.held)
    (hok : s.cls.free cfg alloc = .ok cls) :
    ({ s with cls := cls, held := s.held.erase alloc } : System).Inv cfg := by
  have hheld : 0 < s.held.count alloc := count_pos_iff.mpr hmem
  have hidx : alloc.2 < cfg.allocsPerSlab :=
    (h.of_weight_pos (by rw [weight]; omega)).1
  have herase : ∀ a, a ≠ alloc → (s.held.erase alloc).count a = s.held.count a :=
    fun a ha => count_erase_of_ne ha
  have hself : (s.held.erase alloc).count alloc = s.held.count alloc - 1 :=
    count_erase_self
  unfold Class.free at hok
  split_ifs at hok with hclass hmarked
  · -- the slab is in release: the chunk's bit is set
    rcases hmap : s.cls.slabReleaseAllocMap alloc.1 with _ | bits
    · rw [hmap] at hok
      exact absurd hok (by simp)
    rw [hmap] at hok
    dsimp only at hok
    split_ifs at hok with hbit
    rw [Except.ok.injEq] at hok
    have hsome : (s.cls.slabReleaseAllocMap alloc.1).isSome := by rw [hmap]; rfl
    have hcls : cls = s.cls.setBits alloc.1 (update bits alloc.2 true) := hok.symm
    subst hcls
    have hrec : ∀ a, a ≠ alloc →
        (s.cls.setBits alloc.1 (update bits alloc.2 true)).recorded cfg a
          = s.cls.recorded cfg a := by
      intro a ha
      by_cases hslab : a.1 = alloc.1
      · have hne : a.2 ≠ alloc.2 := fun e => ha (Prod.ext hslab e)
        have hafter : (s.cls.setBits alloc.1 (update bits alloc.2 true)).slabReleaseAllocMap
            a.1 = some (update bits alloc.2 true) := by
          simp [setBits, hslab]
        have hprior : s.cls.slabReleaseAllocMap a.1 = some bits := by rw [hslab, hmap]
        rw [Class.recorded_of_map hafter, Class.recorded_of_map hprior, update_of_ne hne]
      · exact Class.recorded_congr (update_of_ne hslab _ _)
    have hnow : (s.cls.setBits alloc.1 (update bits alloc.2 true)).recorded cfg alloc
        = true := by
      simp [Class.recorded, setBits, hidx]
    have hbefore : s.cls.recorded cfg alloc = false := by
      simp [Class.recorded_of_map hmap, hbit]
    refine ⟨h.cls.setBits _ hsome, ?_, ?_, h.contexts, h.notStarting, ?_, ?_⟩
    · intro a
      have honce := h.once a
      rw [weight, Class.weight] at honce
      change (s.held.erase alloc).count a + s.offline.count a
        + (s.cls.freedAllocations.count a + (s.cls.inTail cfg a).toNat
          + (if a.2 < cfg.allocsPerSlab then s.cls.freeSlabs.count a.1 else 0) + _)
        = if a.2 < cfg.allocsPerSlab then s.cls.owned cfg a.1 else 0
      rw [← honce]
      by_cases ha : a = alloc
      · subst ha
        rw [hself, hnow, hbefore]
        simp only [Bool.toNat_true, Bool.toNat_false]
        omega
      · rw [herase a ha, hrec a ha]
    · intro b
      rw [setBits_isSome _ hsome]
      exact h.inRelease b
    · intro a hfreed hrel
      rw [setBits_isSome _ hsome] at hrel
      exact h.freed a hfreed hrel
    · intro slab p hp
      apply (h.pruning slab p hp).mono
      · intro b
        rw [setBits_isSome _ hsome]
        exact id
      · intro i hi
        by_cases ha : (slab, i) = alloc
        · rw [ha]
          exact hnow
        · rw [hrec _ ha]
          exact hi
  · -- otherwise it goes to the head of the free list
    rw [Except.ok.injEq] at hok
    subst hok
    refine ⟨⟨h.cls.slabs, h.cls.offset, h.cls.curr, h.cls.marked⟩, ?_, h.inRelease, h.contexts,
      h.notStarting, ?_, ?_⟩
    · intro a
      have honce := h.once a
      rw [weight, Class.weight] at honce
      change (s.held.erase alloc).count a + s.offline.count a
        + ((alloc :: s.cls.freedAllocations).count a + (s.cls.inTail cfg a).toNat
          + (if a.2 < cfg.allocsPerSlab then s.cls.freeSlabs.count a.1 else 0)
          + (s.cls.recorded cfg a).toNat)
        = if a.2 < cfg.allocsPerSlab then s.cls.owned cfg a.1 else 0
      rw [← honce]
      by_cases ha : a = alloc
      · subst ha
        rw [hself, count_cons_self]
        omega
      · rw [herase a ha, count_cons_of_ne (fun e => ha e.symm)]
    · intro a hfreed hrel
      rcases mem_cons.mp hfreed with rfl | hfreed
      · rw [← h.cls.marked] at hrel
        exact absurd hrel hmarked
      · exact h.freed a hfreed hrel
    · intro slab p hp
      exact (h.pruning slab p hp).mono (fun _ => id) (fun _ => id)

theorem Inv.inRelease_erase (hmem : slab ∈ s.contexts) (b : Slab) :
    (update s.cls.slabReleaseAllocMap slab none b).isSome ↔
      b ∈ s.contexts.erase slab ∨ s.startingSlab = some b := by
  rw [h.contexts.mem_erase_iff]
  by_cases hb : b = slab
  · subst hb
    simp [h.notStarting b hmem]
  · rw [update_of_ne hb, h.inRelease b]
    simp [hb]

theorem Inv.pruning_erase (hmem : slab ∈ s.contexts) {c' : Class}
    (hmap : c'.slabReleaseAllocMap = update s.cls.slabReleaseAllocMap slab none)
    (starting : Slab) (p : Class.Pruning) (hp : s.starting = some (starting, p)) :
    c'.Pruned cfg starting p := by
  have hne : starting ≠ slab := by
    intro e
    exact h.notStarting slab hmem (by simp [startingSlab, hp, e])
  apply (h.pruning starting p hp).mono
  · intro b
    rw [hmap]
    by_cases hb : b = slab
    · subst hb
      simp
    · rw [update_of_ne hb]
      exact id
  · intro i hi
    have hsame : c'.recorded cfg (starting, i) = s.cls.recorded cfg (starting, i) :=
      Class.recorded_congr (by rw [hmap]; exact update_of_ne hne _ _)
    rw [hsame]
    exact hi

theorem Inv.abortSlabRelease (hmem : slab ∈ s.contexts) :
    ({ s with
      cls := s.cls.abortSlabRelease cfg slab
      contexts := s.contexts.erase slab } : System).Inv cfg := by
  obtain ⟨hinv, hweight, howned, hmap, hfreed⟩ :=
    abortSlabRelease_spec h.cls (h.isSome_of_context hmem)
  refine ⟨hinv, ?_, ?_, h.contexts.erase slab, ?_, ?_, h.pruning_erase hmem hmap⟩
  · intro a
    have honce := h.once a
    change s.held.count a + s.offline.count a + (s.cls.abortSlabRelease cfg slab).weight cfg a
      = if a.2 < cfg.allocsPerSlab then (s.cls.abortSlabRelease cfg slab).owned cfg a.1 else 0
    rw [hweight, howned]
    exact honce
  · intro b
    rw [hmap]
    exact h.inRelease_erase hmem b
  · intro b hb
    exact h.notStarting b (mem_of_mem_erase hb)
  · intro a ha hrel
    rw [hmap] at hrel
    -- What the abort puts on the free list are chunks of the slab, which is out of release.
    by_cases hslab : a.1 = slab
    · rw [hslab, update_self] at hrel
      exact absurd hrel (by simp)
    · rw [update_of_ne hslab] at hrel
      exact h.freed a ((hfreed a ha).resolve_left hslab) hrel

theorem Inv.completeSlabRelease (hmem : slab ∈ s.contexts)
    (hok : s.cls.completeSlabRelease cfg slab = some (.ok cls)) :
    ({ s with cls := cls, contexts := s.contexts.erase slab } : System).Inv cfg := by
  obtain ⟨bits, hbits, hall, rfl⟩ := completeSlabRelease_ok cfg hok
  have hrec : ∀ i < cfg.allocsPerSlab, s.cls.recorded cfg (slab, i) = true := by
    intro i hi
    rw [Class.recorded_of_map hbits]
    simp [hall i hi, hi]
  have hleaves := forgetSlab_leaves h.cls (h.isSome_of_context hmem) hrec
  have hinv := hleaves.inv
  refine ⟨⟨hinv.slabs, hinv.offset, hinv.curr, hinv.marked⟩, ?_, h.inRelease_erase hmem,
    h.contexts.erase slab, ?_, ?_, h.pruning_erase hmem rfl⟩
  · intro a
    have honce := h.once_of_leaves hleaves a
    exact honce
  · intro b hb
    exact h.notStarting b (mem_of_mem_erase hb)
  · intro a ha hrel
    have hrel' := (h.inRelease_erase hmem a.1).mp hrel
    apply h.freed a ha
    apply (h.inRelease a.1).mpr
    exact hrel'.imp mem_of_mem_erase id

/-! ### `startSlabRelease` -/

theorem Inv.startSlabRelease {hint : Option Slab} {random : ℕ}
    (hstep : step cfg s (.startSlabRelease hint random) = some t) : t.Inv cfg := by
  simp only [step] at hstep
  split at hstep
  case h_1 => exact absurd hstep (by simp)
  rename_i hnone
  have hstart : s.startingSlab = none := by simp [startingSlab, hnone]
  have hoff : s.offline = [] := by simp [offline, hnone]
  rcases beginSlabRelease_cases h.cls hint random with
    ⟨e, heq⟩ | ⟨slab, c', heq, hleaves, hmap⟩ | ⟨slab, c', heq, hbegins⟩
  · rw [heq, some.injEq] at hstep
    subst hstep
    exact h
  · rw [heq, some.injEq] at hstep
    subst hstep
    refine ⟨hleaves.inv, ?_, ?_, h.contexts, h.notStarting, ?_, ?_⟩
    · exact h.once_of_leaves hleaves
    · intro b
      rw [hmap]
      exact h.inRelease b
    · intro a ha hrel
      change a ∈ c'.freedAllocations at ha
      rw [hleaves.freed] at ha
      rw [hmap] at hrel
      exact h.freed a ha hrel
    · intro slab' p hp
      exact absurd (hnone.symm.trans hp) (by simp)
  · rw [heq, some.injEq] at hstep
    subst hstep
    refine ⟨hbegins.inv, ?_, ?_, h.contexts, ?_, ?_, ?_⟩
    · intro a
      have honce := h.once a
      rw [weight, hoff] at honce
      change s.held.count a + ([] : List Alloc).count a + c'.weight cfg a
        = if a.2 < cfg.allocsPerSlab then c'.owned cfg a.1 else 0
      rw [hbegins.weight, hbegins.owned]
      exact honce
    · intro b
      change (c'.slabReleaseAllocMap b).isSome ↔ b ∈ s.contexts ∨ some slab = some b
      rw [hbegins.allocMap, h.inRelease b, hstart, some.injEq]
      constructor
      · rintro (rfl | hb | hb)
        · exact Or.inr rfl
        · exact Or.inl hb
        · exact absurd hb (by simp)
      · rintro (hb | rfl)
        · exact Or.inr (Or.inl hb)
        · exact Or.inl rfl
    · intro b hb e
      have hsome := h.isSome_of_context hb
      have hslab : slab = b := some.inj e
      rw [← hslab, hbegins.fresh] at hsome
      exact absurd hsome (by simp)
    · intro a ha hrel
      change a ∈ c'.freedAllocations at ha
      rw [hbegins.freed] at ha
      -- before the call no chunk of a slab in release was on the free list
      rcases (hbegins.allocMap a.1).mp hrel with hslab | hrel
      · simp [hslab]
      · exact absurd (hnone.symm.trans (h.freed a ha hrel)) (by simp)
    · intro slab' p hp
      obtain ⟨rfl, rfl⟩ : slab = slab' ∧ Class.Pruning.swap = p := by simpa using hp
      trivial

theorem Inv.prune_swap (hs : s.starting = some (slab, .swap))
    {p : List Alloc × List Alloc × List Alloc}
    (hp : p = partitionFreeAllocs slab kFreeAllocsPruneLimit
      s.cls.freedAllocations [] []) :
    ({ s with
      cls := { s.cls with freedAllocations := [] }
      starting := some (slab, .batch p.1 p.2.1 p.2.2) } : System).Inv cfg := by
  have hstart := startingSlab_eq hs
  have hoff : s.offline = [] := by simp [offline, hs]
  obtain ⟨hperm, hin, hnot⟩ := partitionFreeAllocs_spec slab kFreeAllocsPruneLimit
    s.cls.freedAllocations [] [] (by simp) (by simp)
  rw [← hp, append_nil, append_nil] at hperm
  rw [← hp] at hin hnot
  -- what is on the free list and in release belongs to the slab being pruned
  have hslab : ∀ a ∈ p.1 ++ (p.2.1 ++ p.2.2), (s.cls.slabReleaseAllocMap a.1).isSome →
      a.1 = slab := by
    intro a ha hrel
    have hst := (h.freed a (hperm.subset ha) hrel).symm.trans hs
    simpa using hst
  refine ⟨⟨h.cls.slabs, h.cls.offset, h.cls.curr, h.cls.marked⟩, ?_, ?_, h.contexts, ?_, ?_, ?_⟩
  · intro a
    have honce := h.once a
    rw [weight, hoff, Class.weight] at honce
    change s.held.count a + (p.1 ++ (p.2.1 ++ p.2.2)).count a
      + (([] : List Alloc).count a + (s.cls.inTail cfg a).toNat
        + (if a.2 < cfg.allocsPerSlab then s.cls.freeSlabs.count a.1 else 0)
        + (s.cls.recorded cfg a).toNat)
      = if a.2 < cfg.allocsPerSlab then s.cls.owned cfg a.1 else 0
    rw [← honce, hperm.count_eq, count_nil]
    omega
  · intro b
    have hrel := h.inRelease b
    rw [hstart] at hrel
    exact hrel
  · intro b hb
    have hne := h.notStarting b hb
    rw [hstart] at hne
    exact hne
  · intro a ha
    exact absurd ha not_mem_nil
  · intro slab' position hpos
    obtain ⟨rfl, rfl⟩ : slab = slab' ∧ Class.Pruning.batch p.1 p.2.1 p.2.2 = position := by
      simpa using hpos
    refine ⟨fun a ha => hslab a (mem_append_left _ ha), hin, ?_⟩
    intro a ha
    by_contra hne
    have hmem : a ∈ p.1 ++ (p.2.1 ++ p.2.2) :=
      mem_append_right _ (mem_append_right _ ha)
    exact hnot a ha (hslab a hmem (isSome_iff_ne_none.mpr hne))

omit h in
/-- The lists of the batch after this one, in any order, are what was left. -/
theorem nextBatch_spec {c : Class} {freeAllocs : List Alloc}
    (hfree : ∀ a ∈ freeAllocs, (c.slabReleaseAllocMap a.1).isSome → a.1 = slab) (t : System) :
    ({ t with starting := some (slab, nextBatch slab freeAllocs) } : System).offline.Perm
        freeAllocs ∧
      c.Pruned cfg slab (nextBatch slab freeAllocs) := by
  unfold nextBatch
  by_cases hempty : freeAllocs.isEmpty = true
  · rw [if_pos hempty, isEmpty_iff.mp hempty]
    exact ⟨Perm.refl _, trivial⟩
  rw [if_neg hempty]
  obtain ⟨hperm, hin, hnot⟩ := partitionFreeAllocs_spec slab kFreeAllocsPruneLimit
    freeAllocs [] [] (by simp) (by simp)
  rw [append_nil, append_nil] at hperm
  refine ⟨hperm, ?_, hin, ?_⟩
  · intro a ha
    exact hfree a (hperm.subset (mem_append_left _ ha))
  · intro a ha
    by_contra hne
    have hmem := hperm.subset (mem_append_right _ (mem_append_right _ ha))
    exact hnot a ha (hfree a hmem (isSome_iff_ne_none.mpr hne))

theorem Inv.prune_batch {freeAllocs inSlab notInSlab : List Alloc}
    (hs : s.starting = some (slab, .batch freeAllocs inSlab notInSlab))
    {next : Option Class.Pruning}
    (hprune : s.cls.prune cfg slab false (.batch freeAllocs inSlab notInSlab) = (cls, next)) :
    ({ s with cls := cls, starting := some (slab, nextBatch slab freeAllocs) } : System).Inv
      cfg ∧ next = some (nextBatch slab freeAllocs) := by
  have hstart := startingSlab_eq hs
  have hoff : s.offline = freeAllocs ++ (inSlab ++ notInSlab) := by simp [offline, hs]
  obtain ⟨hfree, hin, hnot⟩ := h.pruning slab _ hs
  have hsome : (s.cls.slabReleaseAllocMap slab).isSome := (h.inRelease slab).mpr (Or.inr hstart)
  obtain ⟨bits, hbits⟩ := isSome_iff_exists.mp hsome
  simp only [Class.prune, Bool.false_eq_true, if_false, Prod.mk.injEq, hbits,
    map_some] at hprune
  obtain ⟨rfl, hnext⟩ := hprune
  refine ⟨?_, hnext.symm⟩
  obtain ⟨hperm, hpruned⟩ : _ ∧ s.cls.Pruned cfg slab (nextBatch slab freeAllocs) :=
    nextBatch_spec hfree s
  have hisSome := setBits_isSome (markFreed bits inSlab) hsome
  have hset := h.cls.setBits (markFreed bits inSlab) hsome
  -- a chunk of the batch was recorded nowhere before, and is now
  have hrec : ∀ a, ((s.cls.setBits slab (markFreed bits inSlab)).recorded cfg a).toNat
      = (s.cls.recorded cfg a).toNat + inSlab.count a := by
    intro a
    have hle := h.weight_le_one a
    rw [weight, hoff, Class.weight, count_append, count_append] at hle
    by_cases ha : a.1 = slab
    · have hafter : (s.cls.setBits slab (markFreed bits inSlab)).slabReleaseAllocMap a.1
          = some (markFreed bits inSlab) := by simp [setBits, ha]
      have hprior : s.cls.slabReleaseAllocMap a.1 = some bits := by rw [ha, hbits]
      have hmem : a.2 ∈ inSlab.map Prod.snd ↔ a ∈ inSlab := by
        rw [List.mem_map]
        constructor
        · rintro ⟨x, hx, hxa⟩
          have hxeq : x = a := Prod.ext ((hin x hx).trans ha.symm) hxa
          exact hxeq ▸ hx
        · intro hx
          exact ⟨a, hx, rfl⟩
      rw [Class.recorded_of_map hprior] at hle
      rw [Class.recorded_of_map hafter, Class.recorded_of_map hprior, markFreed_apply]
      simp only [hmem]
      by_cases hx : a ∈ inSlab
      · have hpos := count_pos_iff.mpr hx
        have hidx : a.2 < cfg.allocsPerSlab := by
          apply (h.of_weight_pos _).1
          rw [weight, hoff, count_append, count_append]
          omega
        rcases hb : bits a.2 with _ | _
        · simp only [hx, hidx, decide_true, Bool.or_true, Bool.and_true, Bool.toNat_true,
            Bool.toNat_false]
          omega
        · rw [hb] at hle
          simp only [hidx, decide_true, Bool.and_true, Bool.toNat_true] at hle
          omega
      · rw [count_eq_zero.mpr hx]
        simp [hx]
    · have hsame : (s.cls.setBits slab (markFreed bits inSlab)).recorded cfg a
          = s.cls.recorded cfg a :=
        Class.recorded_congr (update_of_ne ha _ _)
      rw [hsame, count_eq_zero.mpr (fun hx => ha (hin a hx)), Nat.add_zero]
  refine ⟨⟨hset.slabs, hset.offset, hset.curr, hset.marked⟩, ?_, ?_, h.contexts, ?_, ?_, ?_⟩
  · intro a
    have honce := h.once a
    have hr := hrec a
    have hcount := hperm.count_eq a
    rw [weight, hoff, Class.weight, count_append, count_append] at honce
    change s.held.count a + ({ s with
        starting := some (slab, nextBatch slab freeAllocs) } : System).offline.count a
      + ((notInSlab ++ s.cls.freedAllocations).count a + (s.cls.inTail cfg a).toNat
        + (if a.2 < cfg.allocsPerSlab then s.cls.freeSlabs.count a.1 else 0)
        + ((s.cls.setBits slab (markFreed bits inSlab)).recorded cfg a).toNat)
      = if a.2 < cfg.allocsPerSlab then s.cls.owned cfg a.1 else 0
    rw [← honce, hcount, count_append, hr]
    omega
  · intro b
    have hrel := h.inRelease b
    rw [hstart, ← hisSome b] at hrel
    exact hrel
  · intro b hb
    have hne := h.notStarting b hb
    rw [hstart] at hne
    exact hne
  · intro a ha hrel
    have hrel' : (s.cls.slabReleaseAllocMap a.1).isSome := by
      rw [← hisSome a.1]
      exact hrel
    rcases mem_append.mp ha with ha | ha
    · rw [hnot a ha] at hrel'
      exact absurd hrel' (by simp)
    · exact absurd ((h.freed a ha hrel').symm.trans hs) (by simp)
  · intro slab' position hpos
    obtain ⟨rfl, rfl⟩ : slab = slab' ∧ nextBatch slab freeAllocs = position := by
      simpa using hpos
    apply hpruned.mono
    · intro b hb
      rw [← hisSome b]
      exact hb
    · intro i hi
      have hr := hrec (slab, i)
      rw [hi, Bool.toNat_true] at hr
      change (s.cls.setBits slab (markFreed bits inSlab)).recorded cfg (slab, i) = true
      by_contra hno
      have hfalse : (s.cls.setBits slab (markFreed bits inSlab)).recorded cfg (slab, i)
          = false := by
        simpa using hno
      rw [hfalse, Bool.toNat_false] at hr
      omega

theorem Inv.prune_collect (hs : s.starting = some (slab, .collect))
    {active : List Alloc}
    (hactive : active = ((range cfg.allocsPerSlab).filter fun i =>
      !((s.cls.slabReleaseAllocMap slab).getD fun _ => false) i).map fun i => (slab, i)) :
    ({ s with starting := some (slab, .finish active) } : System).Inv cfg := by
  have hstart := startingSlab_eq hs
  have hoff : s.offline = [] := by simp [offline, hs]
  have hsome : (s.cls.slabReleaseAllocMap slab).isSome := (h.inRelease slab).mpr (Or.inr hstart)
  obtain ⟨bits, hbits⟩ := isSome_iff_exists.mp hsome
  refine ⟨h.cls, ?_, ?_, h.contexts, ?_, ?_, ?_⟩
  · intro a
    have honce := h.once a
    rw [weight, hoff] at honce
    exact honce
  · intro b
    have hrel := h.inRelease b
    rw [hstart] at hrel
    exact hrel
  · intro b hb
    have hne := h.notStarting b hb
    rw [hstart] at hne
    exact hne
  · intro a ha hrel
    exact absurd ((h.freed a ha hrel).symm.trans hs) (by simp)
  · intro slab' position hpos
    -- The active allocations are the chunks whose bit is not set.
    obtain ⟨rfl, rfl⟩ : slab = slab' ∧ Class.Pruning.finish active = position := by
      simpa using hpos
    intro i hi hno
    rw [Class.recorded_of_map hbits] at hno
    have hbit : bits i = false := by simpa [hi] using hno
    rw [hactive, hbits]
    simp [hi, hbit]

theorem Inv.prune_finish_nil
    (hs : s.starting = some (slab, .finish [])) :
    ({ s with cls := s.cls.forgetSlab slab, starting := none } : System).Inv cfg := by
  have hstart := startingSlab_eq hs
  have hoff : s.offline = [] := by simp [offline, hs]
  have hsome : (s.cls.slabReleaseAllocMap slab).isSome := (h.inRelease slab).mpr (Or.inr hstart)
  have hpruned := h.pruning slab _ hs
  have hall : ∀ i < cfg.allocsPerSlab, s.cls.recorded cfg (slab, i) = true := by
    intro i hi
    by_contra hno
    exact absurd (hpruned i hi (by simpa using hno)) not_mem_nil
  have hleaves := forgetSlab_leaves h.cls hsome hall
  refine ⟨hleaves.inv, ?_, ?_, h.contexts, ?_, ?_, ?_⟩
  · intro a
    have honce := h.once_of_leaves hleaves a
    rw [hoff] at honce
    exact honce
  · intro b
    have hrel := h.inRelease b
    rw [hstart] at hrel
    change (update s.cls.slabReleaseAllocMap slab none b).isSome ↔
      b ∈ s.contexts ∨ (none : Option Slab) = some b
    -- The slab was in release for the starting call alone.
    by_cases hb : b = slab
    · subst hb
      have hnot : b ∉ s.contexts := fun hmem => h.notStarting b hmem hstart
      simp [hnot]
    · have hne : slab ≠ b := fun e => hb e.symm
      rw [update_of_ne hb, hrel]
      simp [hne]
  · intro b _
    exact some_ne_none b |>.symm
  · intro a ha hrel
    by_cases hslab : a.1 = slab
    · change (update s.cls.slabReleaseAllocMap slab none a.1).isSome at hrel
      rw [hslab, update_self] at hrel
      exact absurd hrel (by simp)
    · change (update s.cls.slabReleaseAllocMap slab none a.1).isSome at hrel
      rw [update_of_ne hslab] at hrel
      exact absurd ((h.freed a ha hrel).symm.trans hs) (by simp)
  · intro slab' position hpos
    exact absurd hpos (by simp)

/-- Otherwise the context is returned, and the slab stays in release. -/
theorem Inv.prune_finish_cons {active : List Alloc}
    (hs : s.starting = some (slab, .finish active)) (k : ℤ) :
    ({ s with
      cls := { s.cls with activeReleases := k }
      starting := none
      contexts := slab :: s.contexts } : System).Inv cfg := by
  have hstart := startingSlab_eq hs
  have hoff : s.offline = [] := by simp [offline, hs]
  refine ⟨⟨h.cls.slabs, h.cls.offset, h.cls.curr, h.cls.marked⟩, ?_, ?_, ?_, ?_, ?_, ?_⟩
  · intro a
    have honce := h.once a
    rw [weight, hoff] at honce
    exact honce
  · intro b
    have hrel := h.inRelease b
    rw [hstart, some.injEq] at hrel
    change (s.cls.slabReleaseAllocMap b).isSome ↔
      b ∈ slab :: s.contexts ∨ (none : Option Slab) = some b
    rw [hrel, mem_cons, eq_comm, or_comm]
    simp
  · exact nodup_cons.mpr ⟨fun hmem => h.notStarting slab hmem hstart, h.contexts⟩
  · intro b _
    exact some_ne_none b |>.symm
  · intro a ha hrel
    exact absurd ((h.freed a ha hrel).symm.trans hs) (by simp)
  · intro slab' position hpos
    exact absurd hpos (by simp)

theorem Inv.prune (hstep : step cfg s (.prune false) = some t) :
    t.Inv cfg := by
  rcases hs : s.starting with _ | ⟨slab, position⟩
  · simp [step, hs] at hstep
  cases position with
  | swap =>
      simp only [step, hs, Class.prune, some.injEq] at hstep
      exact hstep ▸ h.prune_swap hs rfl
  | batch freeAllocs inSlab notInSlab =>
      rcases hprune : s.cls.prune cfg slab false (.batch freeAllocs inSlab notInSlab)
        with ⟨cls, next⟩
      obtain ⟨hinv, hnext⟩ := h.prune_batch hs hprune
      simp only [step, hs, hprune, hnext, some.injEq] at hstep
      exact hstep ▸ hinv
  | collect =>
      simp only [step, hs, Class.prune, some.injEq] at hstep
      exact hstep ▸ h.prune_collect hs rfl
  | finish active =>
      -- The slab leaves at once if nothing of it is in use.
      rcases active with _ | ⟨a, active⟩
      · simp only [step, hs, Class.prune, isEmpty_nil, if_true, nil_append,
          some.injEq] at hstep
        exact hstep ▸ h.prune_finish_nil hs
      · simp only [step, hs, Class.prune, isEmpty_cons, Bool.false_eq_true, if_false,
          singleton_append, some.injEq] at hstep
        exact hstep ▸ h.prune_finish_cons hs _
  | aborted => exact (h.pruning slab _ hs).elim

/-- **One step.** Every locked section keeps the accounting, except the one in
which a `startSlabRelease` is told to abort. -/
theorem Inv.step {l : Label} (hl : l ≠ .prune true)
    (hstep : step cfg s l = some t) : t.Inv cfg := by
  refine step_rule hstep h ?_ ?_ ?_ ?_ ?_ ?_ ?_ ?_ ?_
  · exact fun hnew => h.addSlab hnew
  · exact h.handOut (allocate_allocates h.cls)
  · exact h.handOut (allocateLocked_allocates h.cls)
  · exact fun hnew => (h.addSlab hnew).handOut (allocateLocked_allocates (h.addSlab hnew).cls)
  · exact fun hmem hfree => h.free hmem hfree
  · rintro hint random rfl
    exact h.startSlabRelease hstep
  · rintro shouldAbort rfl
    have hfalse : shouldAbort = false := by simpa using hl
    subst hfalse
    exact h.prune hstep
  · exact fun hmem => h.abortSlabRelease hmem
  · exact fun hmem hcomplete => h.completeSlabRelease hmem hcomplete

omit h in
/-- **Every run** without such an abort keeps it. -/
theorem inv_of_run {ls : List Label} (hrun : exec (AllocationClass.step cfg) {} ls = some s)
    (habort : Label.prune true ∉ ls) : s.Inv cfg := by
  have hkeep : ∀ (s : System) (l : Label) (t : System), s.Inv cfg → l ≠ .prune true →
      AllocationClass.step cfg s l = some t → t.Inv cfg :=
    fun _ _ _ hs hl ht => hs.step hl ht
  refine exec_invariant_along hkeep hrun (Along.of_forall ?_) inv_init
  intro l hl _ e
  exact habort (e ▸ hl)

theorem Inv.allocates {out : Option Alloc × Class}
    (ha : s.cls.Allocates cfg out) {a : Alloc} (hout : out.1 = some a) :
    a ∉ s.held ∧ ((s.cls.header a.1).markedForRelease = true →
      s.starting = some (a.1, .swap)) := by
  constructor
  · intro hmem
    have hpos := count_pos_iff.mpr hmem
    have hw := ha.weight a
    have hle := h.weight_le_one a
    rw [hout, toList_some, count_singleton_self] at hw
    rw [weight] at hle
    omega
  · intro hmarked
    rw [h.cls.marked] at hmarked
    rcases ha.source a hout with hfreed | hnone
    · exact h.freed a hfreed hmarked
    · rw [hnone] at hmarked
      exact absurd hmarked (by simp)

theorem Inv.not_recorded_of_held {a : Alloc} (ha : a ∈ s.held) : ¬ s.cls.recorded cfg a := by
  intro hrec
  have honce := h.weight_le_one a
  have hcount := count_pos_iff.mpr ha
  have hle : s.occurrences cfg a .heldByUser + s.occurrences cfg a .recordedFreed ≤ s.weight cfg a :=
    s.occurrences_add_le a (by decide)
  simp only [occurrences, hrec, Bool.toNat_true] at hle
  omega

theorem Inv.held_or_recorded (hmem : slab ∈ s.contexts) {i : ℕ} (hi : i < cfg.allocsPerSlab) :
    (slab, i) ∈ s.held ∨ s.cls.recorded cfg (slab, i) = true := by
  have hsome := h.isSome_of_context hmem
  have hvectors : ¬ (slab ∈ s.cls.freeSlabs ∨ slab ∈ s.cls.allocatedSlabs) := fun hlisted => by
    simp [h.cls.not_inRelease hlisted] at hsome
  have hstarting : ∀ p, s.starting ≠ some (slab, p) := fun p hp =>
    h.notStarting slab hmem (startingSlab_eq hp)
  have honce : s.weight cfg (slab, i) = 1 := by
    rw [h.once, if_pos hi, owned_of_owns (h.cls.owns_of_inRelease hsome)]
  obtain ⟨st, hst, -⟩ := exists_unique_state honce
  cases st with
  | heldByUser => exact .inl hst
  | recordedFreed => exact .inr hst
  | onFreeList => exact absurd (h.freed _ hst hsome) (hstarting _)
  | inTail => exact absurd (.inr (h.cls.curr slab (of_decide_eq_true hst).1)) hvectors
  | inFreeSlab => exact absurd (.inl hst.1) hvectors
  | beingPruned =>
      -- what another release has taken is not of this slab
      rcases hs : s.starting with _ | ⟨b, _ | ⟨freeAllocs, inSlab, notInSlab⟩ | _ | _ | _⟩ <;>
        simp only [InState, offline, hs, not_mem_nil, mem_append] at hst
      obtain ⟨hfree, hin, hnot⟩ := h.pruning _ _ hs
      have hslab : slab = b := by
        rcases hst with hst | hst | hst
        · exact hfree _ hst hsome
        · exact hin _ hst
        · simp [hnot _ hst] at hsome
      exact absurd (hslab ▸ hs) (hstarting _)

end System

/-- What a call returns to its caller. -/
def returned (cfg : Config) (s : System) : Label → Option Alloc
  | .allocate => (s.cls.allocate cfg).1
  | .allocateLocked => (s.cls.allocateLocked cfg).1
  | .addSlabAndAllocate slab => ((s.cls.addSlabLocked cfg slab).allocateLocked cfg).1
  | _ => none

/-- **The partition.** In every run in which no `startSlabRelease` is told to
abort, every chunk of every slab the class owns is in exactly one state. An
allocation returns no chunk that is held, and one of a slab in release only before
the `startSlabRelease` of that slab has taken the free list. -/
theorem chunk_in_exactly_one_state {ls : List Label} {s : System}
    (hrun : exec (step cfg) {} ls = some s) (habort : Label.prune true ∉ ls) :
    (∀ slab idx, s.cls.Owns cfg slab → idx < cfg.allocsPerSlab →
      (∃! st, s.InState cfg (slab, idx) st) ∧
        (s.starting = none → ¬ s.InState cfg (slab, idx) .beingPruned)) ∧
      ∀ l t a, step cfg s l = some t → returned cfg s l = some a →
        a ∉ s.held ∧ ((s.cls.header a.1).markedForRelease = true →
          s.starting = some (a.1, .swap)) := by
  have h := System.inv_of_run hrun habort
  constructor
  · intro slab idx hown hidx
    constructor
    · apply System.exists_unique_state
      rw [h.once, if_pos hidx, Class.owned_of_owns hown]
    · intro hnone
      simp [System.InState, System.offline, hnone]
  · intro l t a hstep hret
    rcases l with slab | _ | _ | slab | alloc | ⟨hint, random⟩ | shouldAbort | ⟨ctxSlab, alloc⟩ |
      slab | slab
    case allocate => exact h.allocates (allocate_allocates h.cls) hret
    case allocateLocked => exact h.allocates (allocateLocked_allocates h.cls) hret
    case addSlabAndAllocate =>
      have hnew : (s.cls.header slab).classId = none := by
        by_contra hno
        simp [step, hno] at hstep
      have h' := h.addSlab hnew
      obtain ⟨hheld, hmarked⟩ := h'.allocates (allocateLocked_allocates h'.cls) hret
      refine ⟨hheld, fun hm => hmarked ?_⟩
      -- the new header of the slab keeps its mark
      by_cases ha : a.1 = slab
      · simpa [addSlabLocked, ha] using ha ▸ hm
      · simpa [addSlabLocked, update_of_ne ha] using hm
    all_goals exact absurd hret (by simp [returned])

/-- Two chunks a slab; both are taken, one is freed, and the slab is released with
the other one active. -/
def releaseRun : List Label :=
  [.addSlab 7, .allocate, .allocate, .free (7, 0), .startSlabRelease (some 7) 0, .prune false,
    .prune false, .prune false, .prune false, .addSlabAndAllocate 8]

def twoPerSlab : Config := ⟨3, 2, 4, by decide, by decide⟩

theorem chunk_in_exactly_one_state_releaseRun :
    ∃ s, exec (step twoPerSlab) {} releaseRun = some s ∧ s.held = [(8, 0), (7, 1)] ∧
      s.contexts = [7] ∧
      ((∀ slab idx, s.cls.Owns twoPerSlab slab → idx < twoPerSlab.allocsPerSlab →
        (∃! st, s.InState twoPerSlab (slab, idx) st) ∧
          (s.starting = none → ¬ s.InState twoPerSlab (slab, idx) .beingPruned)) ∧
        ∀ l t a, step twoPerSlab s l = some t → returned twoPerSlab s l = some a →
          a ∉ s.held ∧ ((s.cls.header a.1).markedForRelease = true →
            s.starting = some (a.1, .swap))) := by
  obtain ⟨s, hrun, hheld, hctx⟩ : ∃ s, exec (step twoPerSlab) {} releaseRun = some s ∧
      s.held = [(8, 0), (7, 1)] ∧ s.contexts = [7] := ⟨_, rfl, rfl, rfl⟩
  exact ⟨s, hrun, hheld, hctx, chunk_in_exactly_one_state hrun (by decide)⟩

/-- **A release ends when the last chunk is freed.** In every run in which no `startSlabRelease` is
told to abort, what is held is of slabs that the class owns. `completeSlabRelease` never throws; it
waits as long as a chunk of its slab is held, and no longer. -/
theorem completeSlabRelease_ends_iff {ls : List Label} {s : System}
    (hrun : exec (step cfg) {} ls = some s) (habort : Label.prune true ∉ ls) :
    (∀ a ∈ s.held, a.2 < cfg.allocsPerSlab ∧ s.cls.Owns cfg a.1) ∧
      ∀ slab ∈ s.contexts,
        (s.cls.completeSlabRelease cfg slab = none ↔ ∃ a ∈ s.held, a.1 = slab) ∧
        ∀ e, s.cls.completeSlabRelease cfg slab ≠ some (.error e) := by
  have h := System.inv_of_run hrun habort
  have hheld : ∀ a ∈ s.held, a.2 < cfg.allocsPerSlab ∧ s.cls.Owns cfg a.1 := fun a ha =>
    h.of_weight_pos (Nat.add_pos_left (Nat.add_pos_left (count_pos_iff.mpr ha) _) _)
  refine ⟨hheld, fun slab hmem => ?_⟩
  have hsome := h.isSome_of_context hmem
  obtain ⟨bits, hbits⟩ := isSome_iff_exists.mp hsome
  have howns : (s.cls.header slab).classId = some cfg.classId := h.cls.owns_of_inRelease hsome
  have hmarked : (s.cls.header slab).markedForRelease = true := (h.cls.marked slab).trans hsome
  have hbit : ∀ i < cfg.allocsPerSlab, bits i = s.cls.recorded cfg (slab, i) := fun i hi => by
    simp [recorded, hbits, hi]
  simp only [completeSlabRelease, howns, hmarked, hbits, ne_eq, not_true, decide_false, Bool.not_true,
    Bool.or_self, Bool.false_eq_true, if_false, ite_eq_right_iff, reduceCtorEq, imp_false]
  constructor
  · constructor
    · intro hall
      simp only [List.all_eq_true, List.mem_range, not_forall] at hall
      obtain ⟨i, hi, hnot⟩ := hall
      rw [hbit i hi] at hnot
      exact ⟨_, (h.held_or_recorded hmem hi).resolve_right hnot, rfl⟩
    · rintro ⟨a, ha, rfl⟩ hall
      have hidx := (hheld a ha).1
      exact h.not_recorded_of_held ha
        ((hbit a.2 hidx).symm.trans (List.all_eq_true.mp hall _ (List.mem_range.mpr hidx)))
  · intro e
    split <;> simp

theorem completeSlabRelease_ends_iff_releaseRun :
    ∃ s, exec (step twoPerSlab) {} releaseRun = some s ∧ s.contexts = [7] ∧
      s.cls.completeSlabRelease twoPerSlab 7 = none ∧
      s.cls.Owns twoPerSlab 7 := by
  obtain ⟨s, hrun, hheld, hctx⟩ : ∃ s, exec (step twoPerSlab) {} releaseRun = some s ∧
      s.held = [(8, 0), (7, 1)] ∧ s.contexts = [7] := ⟨_, rfl, rfl, rfl⟩
  obtain ⟨howned, hends⟩ := completeSlabRelease_ends_iff hrun (by decide)
  have hmem : (7, 1) ∈ s.held := by rw [hheld]; decide
  exact ⟨s, hrun, hctx, (hends 7 (by simp [hctx])).1.mpr ⟨_, hmem, rfl⟩, (howned _ hmem).2⟩

end CacheLib.AllocationClass
