import MiniMM.Binding.Edits

/-!
# Code that leaves the spaces alone

Between the steps that lock and unlock a space, a call changes nothing that the lock of a space
protects.
-/

namespace MiniMM

open Code

namespace Sys

/-- Steps that neither make, lock nor unlock a space, nor set its break. -/
def Op.still {α : Type} : Op α → Prop
  | .lockSpace _ | .unlockSpace .. | .newSpace .. | .unlockBrk .. => False
  | _ => True

/-- The spaces, their breaks and their locks are as they were. -/
structure Stood (s s' : Sys) : Prop where
  space : s'.space = s.space
  nextSpace : s'.nextSpace = s.nextSpace
  held : ∀ i, s'.held (.space i) = s.held (.space i)
  brk : s'.brk = s.brk

namespace Stood

variable {s s' s'' : Sys}

theorem refl (s : Sys) : Stood s s := ⟨rfl, rfl, fun _ ↦ rfl, rfl⟩

theorem trans (h : Stood s s') (h' : Stood s' s'') : Stood s s'' :=
  ⟨h'.space.trans h.space, h'.nextSpace.trans h.nextSpace, fun i ↦ (h'.held i).trans (h.held i),
    h'.brk.trans h.brk⟩

end Stood

theorem lock_stood {α : Type} {s s' : Sys} {l : LockId} {v a : α} (hl : ∀ i, l ≠ .space i)
    (h : s.lock l v = .ok a s') : Stood s s' := by
  unfold lock at h
  split at h <;> cases h
  exact ⟨rfl, rfl, fun i ↦ Function.update_of_ne (hl i).symm _ _, rfl⟩

theorem countUp_stood {n : ℕ} {s s1 s' : Sys} {u : Unit} (hs : Stood s s1)
    (h : countUp n s1 = .ok u s') : Stood s s' := by
  unfold countUp at h
  split at h <;> cases h
  exact hs

theorem exec_stood {α : Type} {s s' : Sys} {o : Op α} {a : α} (ho : o.still)
    (h : s.exec o = .ok a s') : Stood s s' := by
  cases o with
  | lockSpace | unlockSpace | newSpace | unlockBrk => cases ho
  | abort | stuck => cases h
  | create | request | store | newNote =>
    simp only [exec] at h
    split at h <;> cases h <;> exact ⟨rfl, rfl, fun _ ↦ rfl, rfl⟩
  | lockBrk | lockBacking | lockLineage =>
    exact lock_stood (fun i hi ↦ by cases hi) h
  | retain | retainBacking | retainNote =>
    rw [exec] at h
    refine countUp_stood ?_ h
    exact ⟨rfl, rfl, fun _ ↦ rfl, rfl⟩
  | unlockBacking | unlockLineage | newLineage =>
    cases h
    refine ⟨rfl, rfl, fun i ↦ ?_, rfl⟩
    simp
  | _ =>
    cases h
    exact ⟨rfl, rfl, fun _ ↦ rfl, rfl⟩

end Sys

namespace Code

variable {α β : Type} {p q : Code α} {f : α → Code β} {c : Prop} [Decidable c]

abbrev Still (p : Code α) : Prop := Prog.Yields Sys.Op.still (fun _ _ ↦ True) p fun _ ↦ True

theorem Still.ends (hp : Still p) (s : Sys) : Ends p s fun _ s' ↦ s.Stood s' := by
  intro a s' hrun
  induction p generalizing s with
  | pure b =>
    cases hrun
    exact .refl _
  | op o k ih =>
    obtain ⟨b, s1, hexec, hrest⟩ := Prog.run_op_done _ hrun
    exact (Sys.exec_stood hp.1 hexec).trans (ih b (hp.2 b trivial) s1 hrest)

theorem Silent.still (h : Silent p) : Still p := by
  induction p with
  | pure a => trivial
  | op o k ih =>
    refine ⟨?_, fun b _ ↦ ih b (h.2 b trivial)⟩
    cases o with
    | lockSpace | unlockSpace | newSpace | unlockBrk => exact h.1
    | _ => trivial

theorem still_bind (hp : Still p) (hf : ∀ a, Still (f a)) : Still (p >>= f) :=
  Prog.Yields.bind hp fun a _ ↦ hf a

theorem still_ite (hp : Still p) (hq : Still q) : Still (if c then p else q) := by
  split <;> assumption

theorem still_step {o : Sys.Op α} (ho : o.still) : Still (.step o) := ⟨ho, fun _ _ ↦ trivial⟩

theorem still_quiet {Q : α → Prop} (hp : Quiet p Q) (hf : ∀ a, Q a → Still (f a)) :
    Still (p >>= f) := by
  induction p with
  | pure a => exact hf a hp
  | op o k ih =>
    refine ⟨?_, fun b _ ↦ ih b (hp.2 b trivial)⟩
    cases o with
    | lockSpace | unlockSpace | newSpace | unlockBrk => exact hp.1
    | _ => trivial

end Code

/-! ## Backings and bindings -/

namespace Note

variable {n : NoteId}

theorem still_mappingDetach : Still (mappingDetach n) := by
  refine still_bind (still_step trivial) fun _ ↦ still_bind (still_step trivial) fun _ ↦ ?_
  refine still_bind (still_step trivial) fun _ ↦
    still_bind (silent_when silent_abort).still fun _ ↦ ?_
  exact still_bind (still_step trivial) fun _ ↦ still_step trivial

theorem still_mappingAttach : Still (mappingAttach n) := by
  refine still_bind (still_step trivial) fun _ ↦ still_bind (still_step trivial) fun _ ↦ ?_
  refine still_bind (still_step trivial) fun _ ↦ still_ite ?_ ?_
  · exact still_bind (still_step trivial) fun _ ↦ trivial
  · exact still_bind (still_step trivial) fun _ ↦ still_bind (still_step trivial) fun _ ↦ trivial

end Note

namespace Backing

theorem still_release {b : BackingId} : Still (release b) := by
  refine still_bind (still_step trivial) fun last ↦ ?_
  cases last with
  | none => trivial
  | some r =>
    refine still_bind (CachedPages.silent_release r.1).still fun _ ↦ ?_
    cases r.2.note with
    | none => trivial
    | some n => exact still_bind Note.still_mappingDetach fun _ ↦ Note.silent_release.still

theorem still_create {note : Option NoteId} {flags : MapFlags} : Still (create note flags) := by
  refine still_ite trivial (still_bind silent_malloc.still fun _ ↦ still_ite trivial ?_)
  cases note with
  | none => exact still_bind (still_step trivial) fun _ ↦ trivial
  | some n =>
    refine still_bind Note.still_mappingAttach fun _ ↦ still_ite trivial ?_
    exact still_bind (still_step trivial) fun _ ↦ still_bind (still_step trivial) fun _ ↦ trivial

end Backing

namespace Binding

theorem silent_create : Silent create := silent_bind silent_malloc fun _ ↦ trivial

theorem still_listDestroy (bindings : List Binding) : Still (listDestroy bindings) := by
  induction bindings with
  | nil => trivial
  | cons binding rest ih => exact still_bind Backing.still_release fun _ ↦ ih

theorem still_listCloneFrom (bindings copies : List Binding) :
    Still (listCloneFrom bindings copies) := by
  induction bindings generalizing copies with
  | nil => trivial
  | cons binding rest ih =>
    refine still_bind silent_malloc.still fun _ ↦ still_ite ?_ ?_
    · exact still_bind (still_listDestroy copies) fun _ ↦ trivial
    · exact still_bind (still_step trivial) fun _ ↦ ih _

end Binding

/-! ## Calls under the lock -/

namespace Space

variable {i : SpaceId} {c : Space} {start stop length hint newSize : ℕ} {b : BackingId}
  {mapping : Vma}

theorem still_mappingValidateBacking {args : MmapArgs} {maximum : Prot} :
    Still (mappingValidateBacking args length maximum) := by
  refine still_ite trivial ?_
  split
  · trivial
  · refine still_ite trivial (still_bind Note.silent_info.still fun _ ↦ still_ite trivial ?_)
    exact still_bind Note.silent_loadSize.still fun _ ↦ trivial

theorem still_mmapLocked (h : c.vmaSnapshot.Good) {args : MmapArgs} {maximum : Prot} :
    Still (mmapLocked i args length maximum b c) := by
  refine still_ite trivial (still_bind (quiet_mmapPlace h args length maximum).silent.still ?_)
  rintro ⟨status, address, _ | next⟩
  · trivial
  · refine still_bind (still_ite silent_unmapPagesLocked.still trivial) fun t ↦ ?_
    refine still_bind (quiet_publishLocked _ next).silent.still fun c ↦ ?_
    refine still_bind (still_ite (quiet_populateRange _ _ _).silent.still trivial) fun c ↦ trivial

theorem still_munmapLocked (h : c.vmaSnapshot.Good) : Still (munmapLocked i start stop c) := by
  refine still_bind (VmaSnapshot.quiet_remove h start stop).silent.still ?_
  rintro ⟨status, _ | next⟩
  · trivial
  · refine still_bind silent_unmapPagesLocked.still fun t ↦ ?_
    exact still_bind (quiet_publishLocked _ next).silent.still fun c ↦ trivial

theorem still_mprotectLocked (h : c.vmaSnapshot.Good) {protection : Prot} :
    Still (mprotectLocked i start stop protection c) := by
  refine still_bind (VmaSnapshot.quiet_protect h start stop protection).silent.still ?_
  rintro ⟨status, _ | next⟩
  · trivial
  · refine still_bind (PageTable.silent_walkRange fun t page ↦
      PageTable.silent_ignoring (fun _ _ ↦ PageTable.silent_protect) t page).still fun r ↦ ?_
    refine still_bind Tlb.silent_invalidateRange.still fun _ ↦ ?_
    exact still_bind (quiet_publishLocked _ next).silent.still fun c ↦ trivial

theorem still_mappingCopyLocked (h : c.vmaSnapshot.Good) :
    Still (mappingCopyLocked i start length hint c) := by
  refine still_ite trivial ?_
  split
  · trivial
  next mapping hlookup =>
  refine still_ite trivial ?_
  split
  · trivial
  next binding hbinding =>
  unfold mappingCopyFrom
  generalize hcollect : collectCopyPages c.pageTable start (start + length) = collect
  refine still_bind (silent_collectCopyPages hcollect).still ?_
  rintro ⟨status, pages⟩
  refine still_ite trivial (still_bind (still_ite (quiet_placeNear h _ _ _).silent.still
    (quiet_placeInGap h _ _ _).silent.still) ?_)
  rintro ⟨status, destination, _ | next⟩
  · trivial
  refine still_bind Binding.silent_create.still fun status ↦ still_ite trivial ?_
  refine still_bind (still_step trivial) fun _ ↦ ?_
  refine still_bind silent_copyEntries.still fun r ↦ still_ite trivial ?_
  exact still_bind (quiet_publishLocked _ next).silent.still fun c ↦ trivial

theorem still_extendHeapLocked (h : c.vmaSnapshot.Good) {base : ℕ} :
    Still (extendHeapLocked base start stop c) := by
  unfold extendHeapLocked
  split
  · trivial
  next tail hlookup =>
  refine still_ite trivial (still_ite trivial ?_)
  split
  · trivial
  next binding hbinding =>
  refine still_bind Backing.silent_info.still fun info ↦ still_ite trivial ?_
  refine still_bind (VmaSnapshot.quiet_insert h _).silent.still ?_
  rintro ⟨status, _ | next⟩
  · trivial
  · exact still_bind (quiet_publishLocked _ next).silent.still fun c ↦ trivial

theorem quiet_mremapInPlace (h : c.vmaSnapshot.Good) :
    Quiet (mremapInPlace i c mapping newSize) fun r ↦ r.1 = none → r.2 = c := by
  refine quiet_ite (fun hr ↦ by cases hr) (quiet_ite ?_ (quiet_ite ?_ fun _ ↦ rfl))
  · refine quiet_seq (VmaSnapshot.quiet_remove h _ _).silent ?_
    rintro ⟨status, _ | next⟩
    · intro hr
      cases hr
    · refine quiet_seq silent_unmapPagesLocked fun t ↦ ?_
      refine quiet_seq (quiet_publishLocked _ next).silent fun c' hr ↦ ?_
      cases hr
  · refine (VmaSnapshot.quiet_remove h _ _).bind ?_
    rintro ⟨status, without⟩ hwithout
    refine quiet_seq (quiet_insertInto status (fun t ht ↦ (hwithout t ht).good) _).silent ?_
    rintro ⟨status, _ | next⟩
    · exact fun _ ↦ rfl
    · refine quiet_seq (quiet_publishLocked _ next).silent fun c' hr ↦ ?_
      cases hr

theorem still_mremapCommit {replacement : Vma} {flags : MremapFlags} {next : VmaSnapshot} :
    Still (mremapCommit i c mapping replacement flags b next) := by
  unfold mremapCommit
  generalize hfixed : movePtesFixedLocked i c.pageTable mapping.start (mapping.stop - mapping.start)
    replacement.start (replacement.stop - replacement.start) = fixed
  refine still_bind (still_ite (silent_movePtesFixedLocked hfixed).still
    silent_movePtesLocked.still) fun r ↦ still_ite trivial ?_
  exact still_bind (quiet_publishLocked _ next).silent.still fun c ↦ trivial

theorem still_mremapMove (h : c.vmaSnapshot.Good) {destination : ℕ} {flags : MremapFlags} :
    Still (mremapMove i c mapping newSize destination flags b) := by
  refine still_ite trivial (still_bind (quiet_mremapSnapshot h _ _ _).silent.still ?_)
  rintro ⟨status, _ | next⟩
  · trivial
  refine still_bind (still_ite Binding.silent_create.still trivial) fun status ↦
    still_ite trivial ?_
  exact still_bind (still_ite (still_step trivial) trivial) fun _ ↦ still_mremapCommit

theorem still_mremapLocked (h : c.vmaSnapshot.Good) {oldAddress oldSize : ℕ} {flags : MremapFlags} :
    Still (mremapLocked i oldAddress oldSize newSize flags hint c) := by
  unfold mremapLocked
  split
  · trivial
  next mapping hlookup =>
  refine still_ite trivial ?_
  split
  · trivial
  next binding hbinding =>
  refine still_bind Backing.silent_info.still fun info ↦ still_ite trivial ?_
  refine still_bind ?_ fun fits ↦ still_ite trivial (still_ite (still_mremapMove h) ?_)
  · unfold mremapFits
    split
    · trivial
    · exact still_bind Note.silent_loadSize.still fun _ ↦ trivial
  refine still_quiet (Q := fun r ↦ r.1 = none → r.2 = c)
    (quiet_ite (show _ → _ from fun _ ↦ rfl) (quiet_mremapInPlace h)) ?_
  rintro ⟨_ | result, c'⟩ hsame
  · cases hsame rfl
    exact still_ite trivial (still_ite trivial (still_mremapMove h))
  · trivial

end Space

end MiniMM
