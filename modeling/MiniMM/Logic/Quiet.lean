import MiniMM.Brk
import MiniMM.Access
import MiniMM.Fork
import MiniMM.MemoryApi

/-!
# Code that leaves the bindings alone

Most of the code works on frames, page tables, TLBs and page lists. It does not touch the contents
of a space that is not locked, nor which backings and notes there are, who refers to them and how
large they are.
-/

namespace MiniMM

/-- The part of the system that such code leaves as it is. -/
structure Sys.Same (s s' : Sys) : Prop where
  space : s'.space = s.space
  nextSpace : s'.nextSpace = s.nextSpace
  backingInfo : s'.backingInfo = s.backingInfo
  backingRefs : s'.backingRefs = s.backingRefs
  nextBacking : s'.nextBacking = s.nextBacking
  noteInfo : s'.noteInfo = s.noteInfo
  noteSize : s'.noteSize = s.noteSize
  activeMappings : s'.activeMappings = s.activeMappings
  nextNote : s'.nextNote = s.nextNote

namespace Sys

theorem Same.refl (s : Sys) : Same s s := ⟨rfl, rfl, rfl, rfl, rfl, rfl, rfl, rfl, rfl⟩

theorem Same.trans {s s' s'' : Sys} (h : Same s s') (h' : Same s' s'') : Same s s'' where
  space := h'.space.trans h.space
  nextSpace := h'.nextSpace.trans h.nextSpace
  backingInfo := h'.backingInfo.trans h.backingInfo
  backingRefs := h'.backingRefs.trans h.backingRefs
  nextBacking := h'.nextBacking.trans h.nextBacking
  noteInfo := h'.noteInfo.trans h.noteInfo
  noteSize := h'.noteSize.trans h.noteSize
  activeMappings := h'.activeMappings.trans h.activeMappings
  nextNote := h'.nextNote.trans h.nextNote

/-- The steps of such code. -/
def Op.quiet {α : Type} : Op α → Prop
  | .lockSpace _ | .unlockSpace .. | .newSpace .. | .unlockBrk .. | .newBacking _ | .retainBacking _
  | .dropBacking _ | .setNoteSize .. | .setActiveMappings .. | .newNote .. | .newFile _ => False
  | _ => True

theorem lock_same {α : Type} {s s' : Sys} {l : LockId} {v a : α} (h : s.lock l v = .ok a s') :
    Same s s' := by
  unfold lock at h
  split at h <;> cases h
  exact ⟨rfl, rfl, rfl, rfl, rfl, rfl, rfl, rfl, rfl⟩

theorem countUp_same {n : ℕ} {s s1 s' : Sys} {u : Unit} (hs : Same s s1)
    (h : countUp n s1 = .ok u s') : Same s s' := by
  unfold countUp at h
  split at h <;> cases h
  exact hs

theorem exec_same {α : Type} {s s' : Sys} {o : Op α} {a : α} (ho : o.quiet)
    (h : s.exec o = .ok a s') : Same s s' := by
  cases o with
  | lockSpace | unlockSpace | newSpace | unlockBrk | newBacking | retainBacking | dropBacking
  | setNoteSize | setActiveMappings | newNote | newFile => cases ho
  | abort | stuck => cases h
  | create | request | store =>
    simp only [exec] at h
    split at h <;> cases h
    exact ⟨rfl, rfl, rfl, rfl, rfl, rfl, rfl, rfl, rfl⟩
  | lockBrk | lockBacking | lockLineage => exact lock_same h
  | retain | retainNote =>
    rw [exec] at h
    refine countUp_same ?_ h
    exact ⟨rfl, rfl, rfl, rfl, rfl, rfl, rfl, rfl, rfl⟩
  | _ =>
    cases h
    exact ⟨rfl, rfl, rfl, rfl, rfl, rfl, rfl, rfl, rfl⟩

end Sys

namespace Code

variable {α β : Type}

/-- The code is quiet, and what it returns satisfies `Q` whatever its steps answer. -/
abbrev Quiet (p : Code α) (Q : α → Prop) : Prop :=
  Prog.Yields Sys.Op.quiet (fun _ _ ↦ True) p Q

abbrev Silent (p : Code α) : Prop := Quiet p fun _ ↦ True

theorem Quiet.run {p : Code α} {Q : α → Prop} (h : Quiet p Q) {s s' : Sys} {a : α}
    (hrun : p.run s = .done a s') : Q a ∧ s.Same s' := by
  induction p generalizing s with
  | pure b =>
    cases hrun
    exact ⟨h, .refl _⟩
  | op o k ih =>
    obtain ⟨b, s1, hexec, hrest⟩ := Prog.run_op_done _ hrun
    obtain ⟨hQ, hsame⟩ := ih b (h.2 b trivial) hrest
    exact ⟨hQ, (Sys.exec_same h.1 hexec).trans hsame⟩

theorem Quiet.ends {p : Code α} {Q : α → Prop} (h : Quiet p Q) (s : Sys) :
    Ends p s fun a s' ↦ Q a ∧ s.Same s' :=
  fun _ _ hrun ↦ h.run hrun

theorem Silent.ends {p : Code α} {f : α → Code β} {s : Sys} {R : β → Sys → Prop} (hp : Silent p)
    (hf : ∀ a s', s.Same s' → Ends (f a) s' R) : Ends (p >>= f) s R :=
  (Quiet.ends hp s).bind fun a s' h ↦ hf a s' h.2

theorem ends_exec {o : Sys.Op α} {f : α → Code β} {s s' : Sys} {a : α} {R : β → Sys → Prop}
    (hexec : s.exec o = .ok a s') (hf : Ends (f a) s' R) : Ends (.step o >>= f) s R := by
  intro b s'' hrun
  obtain ⟨a', s1, hexec', hrest⟩ := Prog.run_op_done _ hrun
  cases hexec.symm.trans hexec'
  exact hf b s'' hrest

theorem ends_ite {p q : Code α} {c : Prop} [Decidable c] {s : Sys} {R : α → Sys → Prop}
    (hp : c → Ends p s R) (hq : ¬c → Ends q s R) : Ends (if c then p else q) s R := by
  split
  · exact hp ‹_›
  · exact hq ‹_›

theorem Quiet.silent {p : Code α} {Q : α → Prop} (h : Quiet p Q) : Silent p :=
  h.mono fun _ _ ↦ trivial

theorem Allocates.quiet {p : Code α} {Q : α → Prop} (h : Allocates (fun _ ↦ True) p Q) :
    Quiet p Q := by
  refine Prog.Yields.weaken h (fun {_ o} ho ↦ ?_) fun {_ o _} _ ↦ ?_
  · cases o with
    | malloc | retain | drop | store => trivial
    | _ => exact absurd ho not_false
  · cases o <;> trivial

section Silent

variable {p q : Code α} {f : α → Code β} {c : Prop} [Decidable c]

@[simp] theorem silent_pure (a : α) : Silent (pure a : Code α) := trivial

theorem silent_bind (hp : Silent p) (hf : ∀ a, Silent (f a)) : Silent (p >>= f) :=
  Prog.Yields.bind hp fun a _ ↦ hf a

theorem silent_ite (hp : Silent p) (hq : Silent q) : Silent (if c then p else q) := by
  split <;> assumption

theorem silent_step {o : Sys.Op α} (ho : o.quiet) : Silent (.step o) := ⟨ho, fun _ _ ↦ trivial⟩

@[simp] theorem silent_malloc : Silent malloc := silent_step trivial

@[simp] theorem silent_store {o : FrameStore.Op α} : Silent (store o) := silent_step trivial

@[simp] theorem silent_tlb {i : SpaceId} {o : TlbOp α} : Silent (tlb i o) := silent_step trivial

@[simp] theorem silent_abort {e : Abort} : Silent (abort e) := silent_step trivial

@[simp] theorem silent_request {f : FrameId} {r : FrameStore.Request} : Silent (request f r) :=
  silent_step trivial

@[simp] theorem silent_create {source : FrameSource} {b : FileId} {offset : ℕ} {shared : Bool} :
    Silent (create source b offset shared) := silent_step trivial

@[simp] theorem silent_when {b : Bool} {p : Code Unit} (hp : Silent p) : Silent (when b p) :=
  silent_ite hp trivial

end Silent

end Code

open Code

/-! ## Frames and page tables -/

section Frames

variable {f : FrameId} {offset length : ℕ} {make : Code (Status × FrameId)}

@[simp] theorem silent_frameRetain : Silent (frameRetain f) := silent_step trivial

@[simp] theorem silent_frameReleaseAt {site : DropSite} : Silent (frameReleaseAt site f) :=
  silent_bind (silent_step trivial) fun _ ↦ silent_when silent_store

@[simp] theorem silent_frameRelease : Silent (frameRelease f) := silent_frameReleaseAt

@[simp] theorem silent_frameEnsureResident : Silent (frameEnsureResident f) :=
  silent_bind silent_request fun _ ↦ trivial

@[simp] theorem silent_frameRead : Silent (frameRead f offset length) :=
  silent_bind silent_request fun _ ↦ trivial

@[simp] theorem silent_frameWrite {data : List UInt8} : Silent (frameWrite f offset data) :=
  silent_bind silent_request fun _ ↦ trivial

@[simp] theorem silent_frameCopyInto (h : Silent make) : Silent (frameCopyInto f make) := by
  unfold frameCopyInto
  repeat' first
    | with_reducible refine silent_bind ?_ fun _ ↦ ?_
    | split
    | simp [h]

@[simp] theorem silent_frameCopy : Silent (frameCopy f) := silent_frameCopyInto silent_create

@[simp] theorem silent_frameCopyFile {b : FileId} : Silent (frameCopyFile f b offset) :=
  silent_frameCopyInto silent_create

end Frames

namespace PageTable

variable {t : PageTable} {address : ℕ} {frame : FrameId} {protection : Prot} {flags : PteFlags}

@[simp] theorem silent_map : Silent (t.map address frame protection flags) := by
  have hgrow : Silent (Radix.grow malloc 3 t.root (address / pageSize)) :=
    (Radix.yields_grow silent_malloc 3 t.root _).mono fun _ _ ↦ trivial
  unfold PageTable.map
  repeat' first
    | with_reducible refine silent_bind ?_ fun _ ↦ ?_
    | split
    | simp [hgrow]

@[simp] theorem silent_dropPte {pte : Pte} : Silent (dropPte pte) :=
  silent_bind (silent_when silent_store) fun _ ↦ silent_bind silent_store fun _ ↦
    silent_frameRelease

@[simp] theorem silent_unmap : Silent (t.unmap address) := by
  unfold PageTable.unmap
  repeat' first
    | with_reducible refine silent_bind ?_ fun _ ↦ ?_
    | split
    | simp

variable {set clear : PteFlags}

@[simp] theorem silent_commitAttributes {pte : Pte} :
    Silent (t.commitAttributes address pte protection set clear) := by
  unfold commitAttributes
  repeat' first
    | with_reducible refine silent_bind ?_ fun _ ↦ ?_
    | split
    | simp

@[simp] theorem silent_updateAttributes :
    Silent (t.updateAttributes address protection set clear) := by
  unfold updateAttributes
  repeat' first
    | with_reducible refine silent_bind ?_ fun _ ↦ ?_
    | split
    | simp

@[simp] theorem silent_updateFlags : Silent (t.updateFlags address set clear) := by
  unfold updateFlags
  repeat' first
    | with_reducible refine silent_bind ?_ fun _ ↦ ?_
    | split
    | simp

@[simp] theorem silent_protect : Silent (t.protect address protection) := silent_updateAttributes

@[simp] theorem silent_replaceFrame :
    Silent (t.replaceFrame address frame protection set clear) := by
  unfold replaceFrame
  repeat' first
    | with_reducible refine silent_bind ?_ fun _ ↦ ?_
    | split
    | simp

theorem silent_destroyEntries (entries : List (ℕ × Pte)) : Silent (destroyEntries entries) := by
  induction entries with
  | nil => trivial
  | cons e rest ih => exact silent_bind silent_dropPte fun _ ↦ ih

/-- The code is named apart: evaluating it would list all entries a table can have. -/
theorem silent_destroy {p : Code Unit} (hp : t.destroy = p) : Silent p := by
  rw [← hp, destroy]
  generalize t.entries = entries
  exact silent_destroyEntries entries

theorem silent_walk {body : PageTable → ℕ → Code (Status × PageTable)}
    (h : ∀ t page, Silent (body t page)) (fuel : ℕ) (t : PageTable) (cursor stop : ℕ) :
    Silent (walk body fuel t cursor stop) := by
  induction fuel generalizing t cursor with
  | zero => trivial
  | succ fuel ih =>
    rw [walk]
    split
    · trivial
    · exact silent_bind (h _ _) fun _ ↦ silent_ite trivial (ih _ _)

@[simp] theorem silent_walkRange {start stop : ℕ} {body : PageTable → ℕ → Code (Status × PageTable)}
    (h : ∀ t page, Silent (body t page)) : Silent (t.walkRange start stop body) :=
  silent_walk h _ _ _ _

theorem silent_ignoring {body : PageTable → ℕ → Code (Status × PageTable)}
    (h : ∀ t page, Silent (body t page)) (t : PageTable) (page : ℕ) :
    Silent (ignoring body t page) :=
  silent_bind (h _ _) fun _ ↦ trivial

end PageTable

namespace Tlb

variable {i : SpaceId} {wanted : ℕ → Bool}

@[simp] theorem silent_entryClear {index : ℕ} {e : TlbEntry} : Silent (entryClear i index e) :=
  silent_bind silent_tlb fun _ ↦ silent_frameRelease

@[simp] theorem silent_lookup {address : ℕ} : Silent (lookup i address) := by
  unfold lookup
  repeat' first
    | with_reducible refine silent_bind ?_ fun _ ↦ ?_
    | split
    | simp

@[simp] theorem silent_insert {address : ℕ} {pte : Pte} : Silent (insert i address pte) := by
  unfold insert
  repeat' first
    | with_reducible refine silent_bind ?_ fun _ ↦ ?_
    | split
    | simp

@[simp] theorem silent_invalidateIndex {index : ℕ} :
    Silent (invalidateIndex i wanted index) := by
  unfold invalidateIndex
  repeat' first
    | with_reducible refine silent_bind ?_ fun _ ↦ ?_
    | split
    | simp

@[simp] theorem silent_invalidatePage {address : ℕ} :
    Silent (invalidatePage i address) := by
  unfold invalidatePage
  repeat' first
    | with_reducible refine silent_bind ?_ fun _ ↦ ?_
    | split
    | simp

@[simp] theorem silent_invalidateFrom (indices : List ℕ) :
    Silent (invalidateFrom i wanted indices) := by
  induction indices with
  | nil => trivial
  | cons index rest ih => exact silent_bind silent_invalidateIndex fun _ ↦ ih

@[simp] theorem silent_invalidateRange {start stop : ℕ} :
    Silent (invalidateRange i start stop) :=
  silent_ite trivial (silent_bind silent_tlb fun _ ↦ silent_invalidateFrom _)

@[simp] theorem silent_flush : Silent (flush i) :=
  silent_bind silent_tlb fun _ ↦ silent_invalidateFrom _

theorem silent_destroyFrom (indices : List ℕ) : Silent (destroyFrom i indices) := by
  induction indices with
  | nil => trivial
  | cons index rest ih =>
    refine silent_bind silent_tlb fun e ↦ ?_
    cases e with
    | none => exact ih
    | some e => exact silent_bind silent_entryClear fun _ ↦ ih

@[simp] theorem silent_destroy : Silent (destroy i) :=
  silent_bind silent_tlb fun _ ↦ silent_destroyFrom _

end Tlb

/-! ## Notes and backings -/

@[simp] theorem CachedPages.silent_release (pages : CachedPages) : Silent pages.release := by
  induction pages with
  | nil => trivial
  | cons p rest ih => exact silent_bind silent_frameRelease fun _ ↦ ih

namespace Note

variable {n : NoteId} {v : Lineage} {offset length : ℕ}

@[simp] theorem silent_info : Silent (info n) := silent_step trivial

@[simp] theorem silent_loadSize : Silent (loadSize n) := silent_step trivial

@[simp] theorem silent_retain : Silent (retain n) := silent_step trivial

@[simp] theorem silent_cacheFrame {make : Code (Status × FrameId)} (h : Silent make) :
    Silent (cacheFrame v n offset make) := by
  unfold cacheFrame
  repeat' first
    | with_reducible refine silent_bind ?_ fun _ ↦ ?_
    | split
    | simp [h]

@[simp] theorem silent_cacheBackingPageLocked : Silent (cacheBackingPageLocked v n offset) := by
  refine silent_cacheFrame (silent_bind silent_info fun i ↦ silent_bind silent_create fun r ↦ ?_)
  exact silent_ite trivial (silent_bind silent_frameEnsureResident fun _ ↦
    silent_ite (silent_bind silent_frameRelease fun _ ↦ trivial) trivial)

@[simp] theorem silent_cacheCopyLocked {source : FrameId} :
    Silent (cacheCopyLocked v n offset source) :=
  silent_cacheFrame (silent_bind silent_info fun _ ↦ silent_frameCopyFile)

theorem silent_readFrameFrom (offset fuel : ℕ) (v : Lineage) (owner : NoteId) :
    Silent (readFrameFrom offset fuel v owner) := by
  have hown : ∀ n, Silent (readFrameFrom.readOwn offset v n) := fun n ↦
    silent_bind silent_loadSize fun _ ↦ silent_ite trivial silent_cacheBackingPageLocked
  induction fuel generalizing owner with
  | zero => trivial
  | succ fuel ih =>
    rw [readFrameFrom]
    split
    · trivial
    · split
      · exact silent_ite (ih _) (hown _)
      · exact hown _

@[simp] theorem silent_getReadFrameLocked : Silent (getReadFrameLocked v n offset) := by
  refine silent_bind silent_loadSize fun _ ↦ silent_ite trivial ?_
  refine silent_bind (silent_readFrameFrom _ _ _ _) fun _ ↦ silent_ite trivial ?_
  exact silent_bind silent_frameRetain fun _ ↦ trivial

@[simp] theorem silent_preserveChildrenLocked {snapshot : FrameId} (children : List NoteId)
    (v : Lineage) : Silent (preserveChildrenLocked offset snapshot children v) := by
  induction children generalizing v with
  | nil => trivial
  | cons child rest ih =>
    refine silent_ite (silent_bind silent_cacheCopyLocked fun _ ↦ ?_) (ih v)
    exact silent_ite trivial (ih _)

@[simp] theorem silent_getPrivateFrameLocked : Silent (getPrivateFrameLocked v n offset) := by
  unfold getPrivateFrameLocked
  repeat' first
    | with_reducible refine silent_bind ?_ fun _ ↦ ?_
    | split
    | simp

@[simp] theorem silent_syncPagesLocked (pages : CachedPages) :
    Silent (syncPagesLocked offset length pages) := by
  induction pages with
  | nil => trivial
  | cons p rest ih =>
    refine silent_ite trivial (silent_ite ?_ ih)
    exact silent_bind silent_store fun _ ↦ silent_ite trivial ih

theorem silent_preserveTruncatedPages {newSize preserveEnd visibleLimit : ℕ} (pages : CachedPages)
    (v : Lineage) : Silent (preserveTruncatedPages n newSize preserveEnd visibleLimit pages v) := by
  induction pages generalizing v with
  | nil => trivial
  | cons p rest ih =>
    refine silent_ite trivial (silent_ite ?_ (ih v))
    refine silent_bind silent_getReadFrameLocked fun _ ↦ silent_ite trivial ?_
    refine silent_bind (silent_preserveChildrenLocked _ _) fun _ ↦ ?_
    exact silent_bind silent_frameRelease fun _ ↦ silent_ite trivial (ih _)

theorem silent_preserveTruncatedFrom {newSize preserveEnd : ℕ} (fuel : ℕ) (owner : NoteId)
    (visibleLimit : ℕ) (v : Lineage) :
    Silent (preserveTruncatedFrom n newSize preserveEnd fuel owner visibleLimit v) := by
  induction fuel generalizing owner visibleLimit v with
  | zero => trivial
  | succ fuel ih =>
    refine silent_ite ?_ trivial
    refine silent_bind (silent_preserveTruncatedPages _ _) fun r ↦ silent_ite trivial ?_
    cases (r.2.body owner).cowParent with
    | none => trivial
    | some parent => exact ih _ _ _

@[simp] theorem silent_resizePrepare {size oldSize : ℕ} :
    Silent (resize.resizePrepare v n size oldSize) := by
  refine silent_ite (silent_bind ?_ fun _ ↦ silent_ite trivial ?_) trivial
  · exact silent_bind (silent_preserveTruncatedFrom _ _ _ _) fun _ ↦ silent_ite trivial trivial
  · exact silent_bind (silent_syncPagesLocked _) fun _ ↦ trivial

@[simp] theorem silent_resizeFile {file : FileId} {size oldSize : ℕ} :
    Silent (resize.resizeFile file size oldSize) :=
  silent_ite silent_store trivial

@[simp] theorem silent_unlinkLocked : Silent (unlinkLocked v n) := by
  unfold unlinkLocked
  repeat' first
    | with_reducible refine silent_bind ?_ fun _ ↦ ?_
    | split
    | simp

theorem silent_releaseFrom (fuel : ℕ) (n : NoteId) : Silent (releaseFrom fuel n) := by
  induction fuel generalizing n with
  | zero => trivial
  | succ fuel ih =>
    refine silent_bind (silent_step trivial) fun last ↦ silent_ite ?_ trivial
    refine silent_bind silent_info fun i ↦ silent_bind (silent_step trivial) fun v ↦ ?_
    refine silent_bind (silent_when silent_abort) fun _ ↦ ?_
    refine silent_bind silent_unlinkLocked fun _ ↦ silent_bind silent_loadSize fun _ ↦ ?_
    refine silent_bind (silent_syncPagesLocked _) fun _ ↦
      silent_bind (silent_step trivial) fun _ ↦ ?_
    refine silent_bind (CachedPages.silent_release _) fun _ ↦ ?_
    split
    · trivial
    · exact ih _

@[simp] theorem silent_release : Silent (release n) := silent_releaseFrom _ _

theorem silent_copyExternalLocked {source copy : NoteId} (pages offset : ℕ) (v u : Lineage) :
    Silent (copyExternalLocked source copy pages offset v u) := by
  induction pages generalizing offset v u with
  | zero => trivial
  | succ pages ih =>
    refine silent_bind silent_getReadFrameLocked fun _ ↦ silent_ite trivial ?_
    refine silent_bind silent_cacheCopyLocked fun _ ↦ silent_bind silent_frameRelease fun _ ↦ ?_
    exact silent_ite trivial (ih _ _ _)

theorem silent_locked {α : Type} {l : LineageId} {body : Lineage → Code α}
    (h : ∀ v, Silent (body v)) : Silent (.step (.lockLineage l) >>= body) :=
  silent_bind (silent_step trivial) h

@[simp] theorem silent_unlock {l : LineageId} : Silent (.step (.unlockLineage l v)) :=
  silent_step trivial

@[simp] theorem silent_validateIo {right : NoteRights → Bool} :
    Silent (validateIo n offset length right) := by
  unfold validateIo
  repeat' first
    | with_reducible refine silent_bind ?_ fun _ ↦ ?_
    | split
    | simp

theorem silent_preadLoop (fuel : ℕ) (v : Lineage) (bytes : List UInt8) :
    Silent (preadLoop n offset length fuel v bytes) := by
  induction fuel generalizing v bytes with
  | zero => trivial
  | succ fuel ih =>
    refine silent_ite
      (silent_bind silent_getReadFrameLocked fun _ ↦ silent_ite trivial ?_) trivial
    refine silent_bind silent_frameRead fun _ ↦ silent_bind silent_frameRelease fun _ ↦ ?_
    exact silent_ite trivial (ih _ _)

theorem silent_pwriteLoop {source : List UInt8} (fuel : ℕ) (v : Lineage) (completed : ℕ) :
    Silent (pwriteLoop n offset source fuel v completed) := by
  induction fuel generalizing v completed with
  | zero => trivial
  | succ fuel ih =>
    refine silent_ite (silent_bind silent_getPrivateFrameLocked fun _ ↦ ?_) trivial
    refine silent_ite trivial (silent_bind silent_frameWrite fun _ ↦ ?_)
    exact silent_bind silent_frameRelease fun _ ↦ silent_ite trivial (ih _ _)

@[simp] theorem silent_pread : Silent (pread n offset length) := by
  refine silent_bind silent_validateIo fun _ ↦ silent_ite trivial ?_
  refine silent_bind silent_info fun _ ↦
    silent_locked fun v ↦ silent_bind silent_loadSize fun _ ↦ ?_
  refine silent_ite (silent_bind silent_unlock fun _ ↦ trivial) ?_
  exact silent_bind (silent_preadLoop _ _ _) fun _ ↦ silent_bind silent_unlock fun _ ↦ trivial

@[simp] theorem silent_pwrite {source : List UInt8} : Silent (pwrite n offset source) := by
  refine silent_bind silent_validateIo fun _ ↦ silent_ite trivial ?_
  refine silent_bind silent_info fun _ ↦
    silent_locked fun v ↦ silent_bind silent_loadSize fun _ ↦ ?_
  refine silent_ite (silent_bind silent_unlock fun _ ↦ trivial) ?_
  exact silent_bind (silent_pwriteLoop _ _ _) fun _ ↦ silent_bind silent_unlock fun _ ↦ trivial

@[simp] theorem silent_pedit {source : List UInt8} : Silent (pedit n offset source) :=
  silent_bind silent_info fun _ ↦ silent_ite trivial silent_pwrite

@[simp] theorem silent_flush : Silent (flush n) := by
  refine silent_bind silent_info fun _ ↦
    silent_locked fun v ↦ silent_bind silent_loadSize fun _ ↦ ?_
  refine silent_bind (silent_syncPagesLocked _) fun _ ↦ ?_
  exact silent_ite (silent_bind silent_unlock fun _ ↦ trivial)
    (silent_bind silent_store fun _ ↦ silent_bind silent_unlock fun _ ↦ trivial)

@[simp] theorem silent_getFrame : Silent (getFrame n offset) := by
  refine silent_bind silent_info fun _ ↦ silent_locked fun v ↦ ?_
  exact silent_bind silent_getPrivateFrameLocked fun _ ↦ silent_bind silent_unlock fun _ ↦ trivial

@[simp] theorem silent_peekFrame : Silent (peekFrame n offset) := by
  refine silent_ite trivial (silent_bind silent_info fun _ ↦ silent_locked fun v ↦ ?_)
  refine silent_bind silent_loadSize fun _ ↦
    silent_ite (silent_bind silent_unlock fun _ ↦ trivial) ?_
  split
  · exact silent_bind silent_unlock fun _ ↦ trivial
  · exact silent_bind silent_frameRetain fun _ ↦ silent_bind silent_unlock fun _ ↦ trivial

@[simp] theorem silent_syncRange : Silent (syncRange n offset length) := by
  refine silent_ite trivial (silent_bind silent_info fun _ ↦ silent_locked fun v ↦ ?_)
  refine silent_bind silent_loadSize fun _ ↦
    silent_ite (silent_bind silent_unlock fun _ ↦ trivial) ?_
  refine silent_bind (silent_syncPagesLocked _) fun _ ↦ ?_
  exact silent_ite (silent_bind silent_unlock fun _ ↦ trivial)
    (silent_bind silent_store fun _ ↦ silent_bind silent_unlock fun _ ↦ trivial)

end Note

namespace Backing

variable {b : BackingId} {offset : ℕ}

@[simp] theorem silent_info : Silent (info b) := silent_step trivial

@[simp] theorem silent_newSharedPage : Silent newSharedPage := by
  refine silent_bind silent_malloc fun _ ↦ silent_ite trivial (silent_bind silent_create fun _ ↦ ?_)
  refine silent_ite trivial (silent_bind silent_frameEnsureResident fun _ ↦ ?_)
  exact silent_ite (silent_bind silent_frameRelease fun _ ↦ trivial) trivial

@[simp] theorem silent_unlock {pages : CachedPages} : Silent (.step (.unlockBacking b pages)) :=
  silent_step trivial

@[simp] theorem silent_getFrame : Silent (getFrame b offset) := by
  refine silent_ite trivial (silent_bind silent_info fun i ↦ ?_)
  split
  · exact silent_bind Note.silent_getFrame fun _ ↦ trivial
  · refine silent_ite (silent_bind silent_create fun _ ↦ trivial) ?_
    refine silent_bind (silent_step trivial) fun pages ↦ ?_
    split
    · exact silent_bind silent_frameRetain fun _ ↦ silent_bind silent_unlock fun _ ↦ trivial
    · refine silent_bind silent_newSharedPage fun _ ↦
        silent_ite (silent_bind silent_unlock fun _ ↦ trivial) ?_
      exact silent_bind silent_frameRetain fun _ ↦ silent_bind silent_unlock fun _ ↦ trivial

@[simp] theorem silent_peekFrame : Silent (peekFrame b offset) := by
  refine silent_ite trivial (silent_bind silent_info fun i ↦ ?_)
  split
  · exact Note.silent_peekFrame
  · refine silent_ite trivial (silent_bind (silent_step trivial) fun pages ↦ ?_)
    split
    · exact silent_bind silent_frameRetain fun _ ↦ silent_bind silent_unlock fun _ ↦ trivial
    · exact silent_bind silent_unlock fun _ ↦ trivial

end Backing

end MiniMM
