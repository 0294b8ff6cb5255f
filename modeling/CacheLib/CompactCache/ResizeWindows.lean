/-
What protects the requests from a resize is their cohort.

For each cohort that may have requests there is a window: a bound on the counts these may have
loaded, and whether they may have loaded a new count beside the old one. A resize opens a window
before it makes a count visible, and closes it when the requests that may have seen the count are
gone (`Stage.before`, `Stage.after`); chunks are released when no window reaches them.

`Safe` is the invariant that says so. This module has what every request keeps of it.
-/
import CacheLib.CompactCache.Resize

set_option autoImplicit false

namespace CacheLib.CompactCache

open Shared Option
open Threads (total replaceAt)

/-! ## Which counts a request may have -/

/-- What the requests of one cohort may have loaded: counts up to `bound`, and a new count beside
them if `dbl` -/
structure Window where
  bound : ℕ
  dbl : Bool

structure Phase where
  numChunks : ℕ
  pending : ℕ
  window : Window
  other : Option Window

namespace Stage

def numChunks (old new : ℕ) : Stage → ℕ
  | announced => old
  | _ => new

def pending (new : ℕ) : Stage → ℕ
  | announced | moved => new
  | cleared | zero => 0

/-- The window of the requests from before the switch -/
def before (old new : ℕ) : Stage → Window
  | announced | moved => ⟨max old new, true⟩
  | cleared => ⟨new, true⟩
  | zero => ⟨max old new, false⟩

/-- The window of those from after it -/
def after (old new : ℕ) : Stage → Window
  | announced => ⟨max old new, true⟩
  | moved => ⟨new, true⟩
  | cleared | zero => ⟨new, false⟩

end Stage

section Phases

def RehashOperation.phase (old new : ℕ) : RehashOperation → Phase
  | copy => ⟨old, new, ⟨max old new, true⟩, none⟩
  | delete => ⟨new, 0, ⟨new, false⟩, none⟩

def ResizePc.phase : ResizePc → Phase
  | grow old _ | growPublish old _ _ _ | store old _ => ⟨old, 0, ⟨old, false⟩, none⟩
  | switch old new stage => ⟨stage.numChunks old new, stage.pending new, stage.before old new, none⟩
  | drain old new stage _ =>
      ⟨stage.numChunks old new, stage.pending new, stage.after old new, some (stage.before old new)⟩
  | rehash old new op _ | visit old new op _ _ => op.phase old new
  | copy old new _ _ _ | storeCount old new => RehashOperation.copy.phase old new
  | clearPending _ new => ⟨new, new, ⟨new, true⟩, none⟩
  | shrink _ new | shrinkPublish new _ _ => ⟨new, 0, ⟨new, false⟩, none⟩

/-- Both counts are within the chunks, and they are not zero where entries are moved. -/
def ResizePc.Sizes (length : ℕ) : ResizePc → Prop
  | store _ new => new ≤ length
  | switch old new stage | drain old new stage _ =>
      old ≤ length ∧ new ≤ length ∧ (stage ≠ .zero → 0 < old ∧ 0 < new)
  | rehash old new _ _ | visit old new _ _ _ | copy old new _ _ _ | storeCount old new
  | clearPending old new => old ≤ length ∧ new ≤ length ∧ 0 < old ∧ 0 < new
  | grow _ _ | growPublish _ _ _ _ | shrink _ _ | shrinkPublish _ _ _ => True

/-- The vector that is about to be published -/
def ResizePc.publishes : ResizePc → Option (List ℕ)
  | growPublish _ _ chunks _ | shrinkPublish _ chunks _ => some chunks
  | _ => none

/-- What the resize has at hand -/
def ResizePc.Holds (s : Shared) : ResizePc → Prop
  | visit _ _ _ _ chunk => chunk ∈ s.chunks
  | copy _ _ _ chunk newChunk => chunk ∈ s.chunks ∧ newChunk ∈ s.chunks
  | drain _ _ _ top => top = !s.top
  | growPublish _ _ chunks .flip | shrinkPublish _ chunks .flip => s.spare = chunks
  | _ => True

/-- The counts as they are, are within a window. -/
structure Window.Fits (w : Window) (n m : ℕ) : Prop where
  count : n ≤ w.bound
  pending : m ≤ w.bound
  announced : m ≠ 0 → w.dbl = true
  dbl : w.dbl = true → 0 < n

theorem Stage.before_fits {stage : Stage} {old new : ℕ} (h : stage ≠ .zero → 0 < old ∧ 0 < new) :
    (stage.before old new).Fits (stage.numChunks old new) (stage.pending new) ∧
      (stage.before old new).bound ≤ max old new := by
  cases stage <;> refine ⟨⟨?_, ?_, ?_, ?_⟩, ?_⟩ <;>
    simp_all [Stage.numChunks, Stage.pending, Stage.before]

theorem Stage.after_fits {stage : Stage} {old new : ℕ} (h : stage ≠ .zero → 0 < old ∧ 0 < new) :
    (stage.after old new).Fits (stage.numChunks old new) (stage.pending new) ∧
      (stage.after old new).bound ≤ max old new := by
  cases stage <;> refine ⟨⟨?_, ?_, ?_, ?_⟩, ?_⟩ <;>
    simp_all [Stage.numChunks, Stage.pending, Stage.after]

theorem RehashOperation.fits (op : RehashOperation) {old new : ℕ} (hold : 0 < old)
    (hnew : 0 < new) :
    (op.phase old new).window.Fits (op.phase old new).numChunks (op.phase old new).pending ∧
      (op.phase old new).window.bound ≤ max old new ∧ (op.phase old new).other = none := by
  cases op <;> refine ⟨⟨?_, ?_, ?_, ?_⟩, ?_, ?_⟩ <;> simp_all [RehashOperation.phase]

/-- No window goes beyond the counts that the resize has made sure of. -/
theorem ResizePc.fits {pc : ResizePc} {length : ℕ} {w : Window} (h : pc.Sizes length)
    (hw : w = pc.phase.window ∨ pc.phase.other = some w) :
    w.Fits pc.phase.numChunks pc.phase.pending ∧
      (w.bound ≤ pc.phase.numChunks ∨ pc.publishes = none ∧ w.bound ≤ length) := by
  have hidle : ∀ n, (Window.mk n false).Fits n 0 := fun n =>
    ⟨le_refl n, Nat.zero_le n, fun hne => absurd rfl hne, nofun⟩
  have hrehash : ∀ {op : RehashOperation} {old new : ℕ}, 0 < old → 0 < new → old ≤ length →
      new ≤ length → w = (op.phase old new).window ∨ (op.phase old new).other = some w →
      w.Fits (op.phase old new).numChunks (op.phase old new).pending ∧ w.bound ≤ length := by
    intro op old new hold hnew hlold hlnew hw
    obtain ⟨hfits, hbound, hother⟩ := op.fits hold hnew
    rcases hw with rfl | hw
    · exact ⟨hfits, by omega⟩
    · rw [hother] at hw
      exact nomatch hw
  cases pc with
  | grow old wanted | growPublish old wanted chunks publish | store old new | shrink old new
  | shrinkPublish new chunks publish =>
      rcases hw with rfl | hw
      · exact ⟨hidle _, Or.inl (le_refl _)⟩
      · exact nomatch hw
  | switch old new stage =>
      obtain ⟨hold, hnew, hpos⟩ := h
      obtain ⟨hfits, hbound⟩ := Stage.before_fits hpos
      rcases hw with rfl | hw
      · refine ⟨hfits, Or.inr ⟨rfl, ?_⟩⟩
        change (stage.before old new).bound ≤ length
        omega
      · exact nomatch hw
  | drain old new stage top =>
      obtain ⟨hold, hnew, hpos⟩ := h
      rcases hw with rfl | hw
      · obtain ⟨hfits, hbound⟩ := Stage.after_fits hpos
        refine ⟨hfits, Or.inr ⟨rfl, ?_⟩⟩
        change (stage.after old new).bound ≤ length
        omega
      · obtain ⟨hfits, hbound⟩ := Stage.before_fits hpos
        rw [phase, some.injEq] at hw
        subst hw
        exact ⟨hfits, Or.inr ⟨rfl, by omega⟩⟩
  | rehash old new op n | visit old new op n chunk | copy old new n chunk newChunk
  | storeCount old new =>
      obtain ⟨hold, hnew, hopos, hnpos⟩ := h
      obtain ⟨hfits, hbound⟩ := hrehash hopos hnpos hold hnew hw
      exact ⟨hfits, Or.inr ⟨rfl, hbound⟩⟩
  | clearPending old new =>
      obtain ⟨hold, hnew, hopos, hnpos⟩ := h
      rcases hw with rfl | hw
      · exact ⟨⟨le_refl _, le_refl _, fun _ => rfl, fun _ => hnpos⟩, Or.inl (le_refl _)⟩
      · exact nomatch hw

/-! ## The invariant -/

variable {Key : Type}

def State.phase (s : State Key) : Phase :=
  match s.resizer with
  | none => ⟨s.numChunks, 0, ⟨s.numChunks, false⟩, none⟩
  | some pc => pc.phase

def State.window (s : State Key) (top : Bool) : Option Window :=
  if top = s.top then some s.phase.window else s.phase.other

/-- The chunks that are not released: those of the vector that is going to be published -/
def State.kept (s : State Key) : List ℕ := (s.resizer.bind ResizePc.publishes).getD s.chunks

def Lookup.Ok (w : Window) : Lookup → Prop
  | old pending => 0 < pending ∧ pending ≤ w.bound
  | first | new _ => True

/-- What a request has loaded is within its window, and the vector it is going to read has a chunk
there that is. -/
def RequestPc.Ok (s : Shared) (w : Window) : RequestPc → Prop
  | find | loadPending | finish => True
  | locate lookup n => lookup.Ok w ∧ 0 < n ∧ n ≤ w.bound
  | size lookup chunkNum _ | again lookup chunkNum => lookup.Ok w ∧ chunkNum < w.bound
  | element lookup chunkNum index =>
      lookup.Ok w ∧ ∃ chunk ∈ s.chunks.take w.bound, (s.vector index)[chunkNum]? = some chunk
  | access chunk | promote chunk | accessDbl chunk => chunk ∈ s.chunks.take w.bound
  | loadCount pending => w.dbl = true ∧ 0 < pending ∧ pending ≤ w.bound

/-- The vector whose index a request has in hand -/
def RequestPc.reads : RequestPc → Option Bool
  | size _ _ index | element _ _ index => some index
  | _ => none

def Thread.reads : Thread Key → Option Bool
  | request _ _ pc => pc.reads
  | _ => none

/-- It has seen that there are chunks, and has not loaded their number yet. -/
def Thread.tested : Thread Key → Bool
  | entering _ .check => false
  | entering _ _ => true
  | request _ _ .find => true
  | _ => false

/-- The cohort it has a reference to -/
def Thread.cohort : Thread Key → Option Bool
  | entering _ (.undo top) => some top
  | request _ top _ => some top
  | _ => none

def Thread.holds (top : Bool) (t : Thread Key) : ℕ := if t.cohort = some top then 1 else 0

structure Safe (s : State Key) : Prop where
  zeroIndexed : s.zeroIndexed = false
  accessedReleased : s.accessedReleased = false
  refs : ∀ top, s.refs top = total (·.holds top) s.threads
  nodup : s.kept.Nodup
  live : ∀ chunk ∈ s.kept, chunk ∉ s.released ∧ chunk < s.nextChunk
  past : ∀ chunk ∈ s.released, chunk < s.nextChunk
  same : s.kept.take s.numChunks = s.chunks.take s.numChunks
  count : s.numChunks ≤ s.kept.length
  numChunks : s.numChunks = s.phase.numChunks
  pending : s.pendingNumChunks = s.phase.pending
  tested : s.numChunks = 0 → ∀ t ∈ s.threads, t.tested = false
  requests : ∀ call top pc, .request call top pc ∈ s.threads →
    ∃ w, s.window top = some w ∧ pc.Ok s.toShared w
  sizes : ∀ pc, s.resizer = some pc → pc.Sizes s.chunks.length
  holds : ∀ pc, s.resizer = some pc → pc.Holds s.toShared

variable {s : State Key} {w : Window} {top : Bool}

theorem Safe.window_fits (h : Safe s) (hw : s.window top = some w) :
    w.Fits s.numChunks s.pendingNumChunks ∧ w.bound ≤ s.kept.length ∧
      s.kept.take w.bound = s.chunks.take w.bound := by
  have hcases : w = s.phase.window ∨ s.phase.other = some w := by
    rw [State.window] at hw
    split at hw
    · exact Or.inl (some.inj hw).symm
    · exact Or.inr hw
  have hwithin : w.bound ≤ s.numChunks → w.bound ≤ s.kept.length ∧
      s.kept.take w.bound = s.chunks.take w.bound := by
    intro hle
    have hcount := h.count
    refine ⟨by omega, ?_⟩
    rw [← Nat.min_eq_left hle, ← List.take_take, h.same, List.take_take]
  rw [h.numChunks, h.pending]
  unfold State.phase at hcases hwithin ⊢
  cases hresizer : s.resizer with
  | none =>
      rw [hresizer] at hcases
      rcases hcases with rfl | hcases
      · exact ⟨⟨le_refl _, Nat.zero_le _, fun hne => absurd rfl hne, nofun⟩, hwithin (le_refl _)⟩
      · exact nomatch hcases
  | some pc =>
      rw [hresizer] at hcases
      obtain ⟨hfits, hbound⟩ := ResizePc.fits (h.sizes pc hresizer) hcases
      refine ⟨hfits, ?_⟩
      rcases hbound with hbound | ⟨hpublishes, hbound⟩
      · have hnum := h.numChunks
        rw [State.phase, hresizer] at hnum
        exact hwithin (by rw [hnum]; exact hbound)
      · have hkept : s.kept = s.chunks := by
          rw [State.kept, hresizer, bind_some, hpublishes, getD_none]
        rw [hkept]
        exact ⟨hbound, rfl⟩

theorem Safe.not_released (h : Safe s) (hw : s.window top = some w) {chunk : ℕ}
    (hchunk : chunk ∈ s.chunks.take w.bound) : chunk ∉ s.released := by
  obtain ⟨-, -, hsame⟩ := h.window_fits hw
  rw [← hsame] at hchunk
  exact (h.live chunk (List.mem_of_mem_take hchunk)).1

end Phases

/-! ## Steps of requests -/

section Requests

variable {Key : Type} {cfg : Config Key} {s : State Key} {shared : Shared} {w : Window} {top : Bool}
  {call : Call Key} {choice : Choice Key} {new threads : List (Thread Key)}

theorem noteIndex_eq {s : Shared} {n : ℕ} (hn : 0 < n) : s.noteIndex n = s := by
  rw [noteIndex, decide_eq_false (by omega), Bool.or_false]

theorem noteAccess_eq {s : Shared} {chunk : ℕ} (h : chunk ∉ s.released) : s.noteAccess chunk = s := by
  rw [noteAccess, decide_eq_false h, Bool.or_false]

/-- What a step of a request can do: it goes on within its window, or it ends and gives its
reference back. -/
inductive Goes (s : Shared) (w : Window) (call : Call Key) (top : Bool) :
    Shared × List (Thread Key) → Prop where
  | on (pc : RequestPc) (hfind : pc ≠ .find) (hok : pc.Ok s w) :
      Goes s w call top (s, [.request call top pc])
  | ends : Goes s w call top (s.decRef top, [])

theorem ok_found {s : Shared} {lookup : Lookup} {chunk : ℕ} (hlookup : lookup.Ok w)
    (h : chunk ∈ s.chunks.take w.bound) :
    lookup.found chunk ≠ .find ∧ (lookup.found chunk).Ok s w := by
  cases lookup with
  | first => exact ⟨nofun, h⟩
  | old pending => exact ⟨nofun, trivial, hlookup⟩
  | new chunkOld =>
      rw [Lookup.found]
      split
      · exact ⟨nofun, trivial⟩
      · exact ⟨nofun, h⟩

/-- A request stays within a window that gets no smaller. -/
theorem RequestPc.Ok.mono {s s' : Shared} {w w' : Window} {pc : RequestPc} (h : pc.Ok s w)
    (hbound : w.bound ≤ w'.bound) (hdbl : w.dbl = true → w'.dbl = true)
    (hchunks : s'.chunks.take w.bound = s.chunks.take w.bound)
    (hvector : ∀ index, pc.reads = some index → s'.vector index = s.vector index) : pc.Ok s' w' := by
  have hmem : ∀ chunk ∈ s.chunks.take w.bound, chunk ∈ s'.chunks.take w'.bound := by
    intro chunk hchunk
    rw [← hchunks] at hchunk
    exact List.take_subset_take_left s'.chunks hbound hchunk
  have hlookup : ∀ {lookup : Lookup}, lookup.Ok w → lookup.Ok w' := by
    intro lookup hok
    cases lookup with
    | old pending => exact ⟨hok.1, le_trans hok.2 hbound⟩
    | first | new chunk => trivial
  cases pc with
  | find | loadPending | finish => trivial
  | locate lookup n => exact ⟨hlookup h.1, h.2.1, le_trans h.2.2 hbound⟩
  | size lookup chunkNum index | again lookup chunkNum =>
      exact ⟨hlookup h.1, lt_of_lt_of_le h.2 hbound⟩
  | element lookup chunkNum index =>
      obtain ⟨hok, chunk, hchunk, hfind⟩ := h
      exact ⟨hlookup hok, chunk, hmem chunk hchunk, by rw [hvector index rfl, hfind]⟩
  | access chunk | promote chunk | accessDbl chunk => exact hmem chunk h
  | loadCount pending => exact ⟨hdbl h.1, h.2.1, le_trans h.2.2 hbound⟩

/-- A step of a thread, in whose place others come -/
theorem Safe.replace (h : Safe s) {i : ℕ} {t : Thread Key} (ht : s.threads[i]? = some t)
    {refs : Bool → ℕ}
    (hrefs : ∀ top, refs top + t.holds top = s.refs top + total (·.holds top) new)
    (htested : s.numChunks = 0 → ∀ u ∈ new, u.tested = false)
    (hrequests : ∀ call top pc, .request call top pc ∈ new →
      ∃ w, s.window top = some w ∧ pc.Ok s.toShared w) :
    Safe { s with refs := refs, threads := replaceAt s.threads i new } := by
  refine { h with refs := fun top => ?_, tested := fun hzero u hu => ?_, requests := ?_ }
  · have hcount : total (·.holds top) (replaceAt s.threads i new) + t.holds top = _ :=
      Threads.total_replaceAt ht new
    have hstep := hrefs top
    rw [h.refs top] at hstep
    change refs top = total (·.holds top) (replaceAt s.threads i new)
    omega
  · rcases Threads.mem_replaceAt hu with hu | hu
    · exact h.tested hzero u hu
    · exact htested hzero u hu
  · intro call top pc hu
    rcases Threads.mem_replaceAt hu with hu | hu
    · exact h.requests call top pc hu
    · exact hrequests call top pc hu

/-- A new thread -/
theorem Safe.spawn (h : Safe s) (t : Thread Key) (hcohort : t.cohort = none)
    (htested : t.tested = false) : Safe { s with threads := t :: s.threads } := by
  refine { h with refs := fun top => ?_, tested := fun hzero => ?_, requests := ?_ }
  · rw [Threads.total_cons, ← h.refs top, Thread.holds, hcohort]
    exact (Nat.zero_add _).symm
  · exact List.forall_mem_cons.mpr ⟨htested, h.tested hzero⟩
  · intro call top pc hmem
    rcases List.mem_cons.mp hmem with rfl | hmem
    · exact nomatch hcohort
    · exact h.requests call top pc hmem

-- The three ways in which a thread may change its references

theorem refs_keep {t u : Thread Key} (hcohort : u.cohort = t.cohort) (top : Bool) :
    s.refs top + t.holds top = s.refs top + total (·.holds top) [u] := by
  rw [Threads.total_cons, Threads.total_nil, Thread.holds, Thread.holds, hcohort]
  rfl

theorem refs_add {t u : Thread Key} {b : Bool} (ht : t.cohort = none) (hu : u.cohort = some b)
    (top : Bool) : (s.addRef b).refs top + t.holds top = s.refs top + total (·.holds top) [u] := by
  rw [Threads.total_cons, Threads.total_nil, Thread.holds, Thread.holds, ht, hu, if_neg (by simp)]
  by_cases hb : top = b
  · subst hb
    simp [addRef]
  · rw [if_neg (by simpa using Ne.symm hb)]
    simp [addRef, Function.update_of_ne hb]

theorem Safe.refs_dec (h : Safe s) {t : Thread Key} {b : Bool} (hmem : t ∈ s.threads)
    (ht : t.cohort = some b) (hnew : ∀ u ∈ new, u.cohort = none) (top : Bool) :
    (s.decRef b).refs top + t.holds top = s.refs top + total (·.holds top) new := by
  have hzero : total (·.holds top) new = 0 := by
    apply Threads.total_eq_zero
    intro u hu
    rw [Thread.holds, hnew u hu]
    rfl
  have hle : t.holds top ≤ s.refs top := by
    rw [h.refs top]
    exact Threads.le_total (f := (·.holds top)) hmem
  rw [hzero]
  rw [Thread.holds, ht] at hle ⊢
  by_cases hb : top = b
  · subst hb
    simp only [if_pos] at hle
    simp only [decRef, Function.update_self, if_pos]
    omega
  · rw [if_neg (by simpa using Ne.symm hb)]
    simp [decRef, Function.update_of_ne hb]

theorem Safe.enter (h : Safe s) {i : ℕ} {pc : Entering}
    (ht : s.threads[i]? = some (.entering call pc))
    (hstep : s.toShared.enter call pc = (shared, new)) :
    Safe { s with toShared := shared, threads := replaceAt s.threads i new } := by
  have hmem : .entering call pc ∈ s.threads := List.mem_of_getElem? ht
  -- From its test on, there are chunks.
  have hpos : pc ≠ .check → s.numChunks ≠ 0 := by
    intro hpc hzero
    have htested := h.tested hzero _ hmem
    cases pc with
    | check => exact hpc rfl
    | _ => exact nomatch htested
  cases pc with
  | check =>
      rw [Shared.enter] at hstep
      split at hstep <;> rename_i hzero <;> obtain ⟨rfl, rfl⟩ := hstep
      · exact h.replace ht (fun top => rfl) nofun nofun
      · exact h.replace ht (refs_keep rfl) (fun h0 => absurd h0 hzero) (by simp)
  | loadCohort =>
      obtain ⟨rfl, rfl⟩ := hstep
      exact h.replace ht (refs_keep rfl) (fun h0 => absurd h0 (hpos nofun)) (by simp)
  | incr top =>
      rw [Shared.enter] at hstep
      split at hstep <;> rename_i htop <;> obtain ⟨rfl, rfl⟩ := hstep
      · refine h.replace ht (refs_add rfl rfl) (fun h0 => absurd h0 (hpos nofun)) ?_
        intro call' top' pc hpc
        rw [List.mem_singleton, Thread.request.injEq] at hpc
        obtain ⟨-, rfl, rfl⟩ := hpc
        exact ⟨s.phase.window, if_pos htop.symm, trivial⟩
      · exact h.replace ht (refs_add rfl rfl) (fun h0 => absurd h0 (hpos nofun)) (by simp)
  | undo top =>
      obtain ⟨rfl, rfl⟩ := hstep
      exact h.replace ht (h.refs_dec hmem rfl (by simp [Thread.cohort]))
        (fun h0 => absurd h0 (hpos nofun)) (by simp)

/-- The request handler on a chunk of the window -/
theorem goes_handler {s : Shared} {chunk : ℕ} (hlive : chunk ∉ s.released)
    (hchunk : chunk ∈ s.chunks.take w.bound) {next : RequestPc} (hfind : next ≠ .find)
    (hok : next.Ok s w) : Goes s w call top (s.handler call top chunk next choice) := by
  unfold handler
  rw [noteAccess_eq hlive]
  split
  · exact .on (.promote chunk) nofun hchunk
  · exact .on .finish nofun trivial
  · exact .ends
  · exact .on next hfind hok

theorem Safe.request_goes (h : Safe s) (hw : s.window top = some w) {pc : RequestPc}
    (hok : pc.Ok s.toShared w) (hfind : pc = .find → 0 < s.numChunks) :
    Goes s.toShared w call top (s.toShared.request cfg call top choice pc) := by
  obtain ⟨hfits, hlength, hkept⟩ := h.window_fits hw
  have hlive : ∀ chunk ∈ s.chunks.take w.bound, chunk ∉ s.released :=
    fun chunk hchunk => h.not_released hw hchunk
  cases pc with
  | find => exact .on _ nofun ⟨trivial, hfind rfl, hfits.count⟩
  | locate lookup n =>
      obtain ⟨hlookup, hpos, hn⟩ := hok
      rw [request, noteIndex_eq hpos]
      exact .on _ nofun ⟨hlookup, lt_of_lt_of_le (cfg.hash_lt call.key n hpos) hn⟩
  | size lookup chunkNum index =>
      rw [request]
      split
      · exact .on _ nofun hok
      · exact .ends
  | again lookup chunkNum =>
      -- The vector that is current now has the chunks of the window.
      obtain ⟨hlookup, hlt⟩ := hok
      have hbound : chunkNum < s.chunks.length := by
        have hlengths := congrArg List.length hkept
        rw [List.length_take, List.length_take] at hlengths
        omega
      refine .on _ nofun ⟨hlookup, s.chunks[chunkNum], ?_, ?_⟩
      · exact List.mem_take_iff_getElem.mpr ⟨chunkNum, by omega, rfl⟩
      · rw [vector, if_pos rfl, List.getElem?_eq_getElem hbound]
  | element lookup chunkNum index =>
      obtain ⟨hlookup, chunk, hchunk, helement⟩ := hok
      obtain ⟨hnext, hfound⟩ := ok_found hlookup hchunk
      simp only [request, helement]
      exact .on _ hnext hfound
  | access chunk =>
      unfold Shared.request
      dsimp only
      split
      · exact .on _ nofun trivial
      · exact goes_handler (hlive chunk hok) hok nofun trivial
  | promote chunk =>
      unfold Shared.request
      dsimp only
      rw [noteAccess_eq (hlive chunk hok)]
      split
      · exact .on _ nofun trivial
      · exact .on _ nofun trivial
  | loadPending =>
      rw [request]
      split <;> rename_i hzero
      · exact .on _ nofun trivial
      · exact .on _ nofun ⟨hfits.announced hzero, Nat.pos_of_ne_zero hzero, hfits.pending⟩
  | loadCount pending =>
      -- The count may be another one than the first, but it is not zero while one is announced.
      exact .on _ nofun ⟨hok.2, hfits.dbl hok.1, hfits.count⟩
  | accessDbl chunk => exact goes_handler (hlive chunk hok) hok nofun trivial
  | finish => exact .ends

theorem Safe.request (h : Safe s) {i : ℕ} {pc : RequestPc}
    (ht : s.threads[i]? = some (.request call top pc))
    (hstep : s.toShared.request cfg call top choice pc = (shared, new)) :
    Safe { s with toShared := shared, threads := replaceAt s.threads i new } := by
  have hmem : .request call top pc ∈ s.threads := List.mem_of_getElem? ht
  obtain ⟨w, hw, hok⟩ := h.requests call top pc hmem
  have hfind : pc = .find → 0 < s.numChunks := by
    rintro rfl
    by_contra hzero
    exact nomatch h.tested (by omega) _ hmem
  have hgoes : Goes s.toShared w call top (s.toShared.request cfg call top choice pc) :=
    h.request_goes hw hok hfind
  rw [hstep] at hgoes
  cases hgoes with
  | on pc' hnotFind hok' =>
      refine h.replace ht (refs_keep rfl) (fun _ u hu => ?_) ?_
      · rw [List.mem_singleton.mp hu]
        cases pc' <;> first | rfl | exact absurd rfl hnotFind
      · intro call' top' pc'' hpc
        rw [List.mem_singleton, Thread.request.injEq] at hpc
        obtain ⟨-, rfl, rfl⟩ := hpc
        exact ⟨w, hw, hok'⟩
  | ends => exact h.replace ht (h.refs_dec hmem rfl nofun) nofun nofun

end Requests

end CacheLib.CompactCache
