import MiniMM.Binding.Counts

/-!
# Calls on notes

A new note is not mapped yet, and a note that is mapped does not shrink.
-/

namespace MiniMM

open Code

/-- The spaces are as they were, and so are the rights of the notes. -/
structure Sys.SpacesKept (s s' : Sys) : Prop where
  space : s'.space = s.space
  nextSpace : s'.nextSpace = s.nextSpace
  nextNote : s.nextNote ≤ s'.nextNote
  noteInfo : ∀ n < s.nextNote, s'.noteInfo n = s.noteInfo n

namespace Sys

variable {s s' s'' : Sys} {sp : SpaceId → Space} {owed : Multiset BackingId}

theorem Kept.spacesKept (h : Kept s s') : SpacesKept s s' :=
  ⟨h.space, h.nextSpace, h.nextNote.ge, fun n _ ↦ congrFun h.noteInfo n⟩

theorem SpacesKept.refl (s : Sys) : SpacesKept s s := (Kept.refl s).spacesKept

theorem SpacesKept.trans (h : SpacesKept s s') (h' : SpacesKept s' s'') : SpacesKept s s'' :=
  ⟨h'.space.trans h.space, h'.nextSpace.trans h.nextSpace, h.nextNote.trans h'.nextNote,
    fun n hn ↦ (h'.noteInfo n (hn.trans_le h.nextNote)).trans (h.noteInfo n hn)⟩

theorem SpacesKept.later (h : SpacesKept s s') : Later s s' :=
  ⟨h.nextSpace.ge, fun i _ ↦ by rw [h.space]; exact .refl _, h.nextNote, h.noteInfo⟩

/-- The steps of code that may make a note and its file. -/
def Op.calm {α : Type} : Op α → Prop
  | .newNote .. | .newFile _ => True
  | o => o.quiet

theorem exec_calm {α : Type} {o : Op α} {a : α} (ho : o.calm) (h : s.Tidy sp owed)
    (hexec : s.exec o = .ok a s') : s'.Tidy sp owed ∧ s.SpacesKept s' := by
  cases o with
  | newNote info size =>
    simp only [exec] at hexec
    split at hexec <;> cases hexec
    · exact ⟨h, .refl s⟩
    · refine ⟨h.newNote info size 1, rfl, rfl, Nat.le_succ _, fun n hn ↦ ?_⟩
      exact Function.update_of_ne hn.ne _ _
  | newFile bytes =>
    have hsame : s.Same s' := by
      cases hexec
      exact ⟨rfl, rfl, rfl, rfl, rfl, rfl, rfl, rfl, rfl⟩
    exact ⟨h.same hsame, hsame.kept.spacesKept⟩
  | _ =>
    have hsame := exec_same (by exact ho) hexec
    exact ⟨h.same hsame, hsame.kept.spacesKept⟩

end Sys

namespace Code

variable {α β : Type} {p q : Code α} {f : α → Code β} {c : Prop} [Decidable c]

abbrev Calm (p : Code α) : Prop := Prog.Yields Sys.Op.calm (fun _ _ ↦ True) p fun _ ↦ True

theorem Silent.calm (h : Silent p) : Calm p := by
  induction p with
  | pure a => trivial
  | op o k ih =>
    refine ⟨?_, fun b _ ↦ ih b (h.2 b trivial)⟩
    cases o with
    | newNote | newFile => trivial
    | _ => exact h.1

theorem calm_bind (hp : Calm p) (hf : ∀ a, Calm (f a)) : Calm (p >>= f) :=
  Prog.Yields.bind hp fun a _ ↦ hf a

theorem calm_ite (hp : Calm p) (hq : Calm q) : Calm (if c then p else q) := by
  split <;> assumption

theorem calm_step {o : Sys.Op α} (ho : o.calm) : Calm (.step o) := ⟨ho, fun _ _ ↦ trivial⟩

theorem Calm.ends (hp : Calm p) {s : Sys} {sp : SpaceId → Space} {owed : Multiset BackingId}
    (h : s.Tidy sp owed) : Ends p s fun _ s' ↦ s'.Tidy sp owed ∧ s.SpacesKept s' := by
  intro a s' hrun
  induction p generalizing s with
  | pure b =>
    cases hrun
    exact ⟨h, .refl _⟩
  | op o k ih =>
    obtain ⟨b, s1, hexec, hrest⟩ := Prog.run_op_done _ hrun
    obtain ⟨h1, hkept⟩ := Sys.exec_calm hp.1 h hexec
    obtain ⟨h2, hkept2⟩ := ih b (hp.2 b trivial) h1 hrest
    exact ⟨h2, hkept.trans hkept2⟩

end Code

namespace Note

variable {file : FileId} {size : ℕ} {rights : NoteRights} {shared : Option LineageId}
  {external : Bool} {n : NoteId}

theorem calm_adoptFd : Calm (adoptFd file size rights shared external) := by
  refine calm_bind silent_malloc.calm fun _ ↦ calm_ite trivial ?_
  refine calm_bind (calm_step trivial) fun duplicated ↦ ?_
  cases duplicated with
  | some e => trivial
  | none =>
    refine calm_bind silent_malloc.calm fun _ ↦ calm_ite trivial ?_
    cases shared with
    | some l =>
      refine calm_bind (calm_step trivial) fun made ↦ ?_
      cases made <;> trivial
    | none =>
      refine calm_bind silent_malloc.calm fun _ ↦ calm_ite trivial ?_
      refine calm_bind (calm_step trivial) fun _ ↦ calm_bind (calm_step trivial) fun made ↦ ?_
      cases made with
      | none => exact calm_bind (calm_step trivial) fun _ ↦ trivial
      | some n => trivial

theorem calm_createTemporary : Calm (createTemporary size rights shared) := by
  refine calm_ite trivial (calm_bind (calm_step trivial) fun made ↦ ?_)
  cases made with
  | some e => trivial
  | none =>
    refine calm_bind (calm_step trivial) fun unlinked ↦ ?_
    cases unlinked with
    | some e => trivial
    | none =>
      refine calm_bind (calm_step trivial) fun sized ↦ ?_
      cases sized with
      | some e => trivial
      | none => exact calm_bind (calm_step trivial) fun _ ↦ calm_adoptFd

theorem calm_create : Calm (create size rights) := by
  refine calm_bind calm_createTemporary fun r ↦ ?_
  obtain ⟨status, _ | ⟨n, l⟩⟩ := r
  · trivial
  · exact calm_bind (calm_step trivial) fun _ ↦ trivial

theorem calm_openFd {bytes : ByteFile.Bytes} : Calm (openFd bytes size rights) := by
  refine calm_ite trivial (calm_bind (calm_step trivial) fun opened ↦ ?_)
  cases opened with
  | some e => trivial
  | none =>
    refine calm_ite trivial (calm_bind (calm_step trivial) fun _ ↦ ?_)
    refine calm_bind calm_adoptFd fun r ↦ ?_
    obtain ⟨status, _ | ⟨n, l⟩⟩ := r
    · trivial
    · exact calm_bind (calm_step trivial) fun _ ↦ trivial

theorem calm_copy : Calm (copy n rights) := by
  refine calm_ite trivial (calm_bind (calm_step trivial) fun i ↦ calm_ite trivial ?_)
  refine calm_bind (calm_step trivial) fun v ↦ calm_bind (calm_step trivial) fun active ↦ ?_
  refine calm_ite (calm_bind (calm_step trivial) fun _ ↦ trivial) ?_
  refine calm_bind (calm_step trivial) fun size ↦ calm_bind calm_createTemporary fun r ↦ ?_
  obtain ⟨status, _ | ⟨m, l⟩⟩ := r
  · exact calm_bind (calm_step trivial) fun _ ↦ trivial
  · refine calm_ite ?_ ?_
    · refine calm_bind (silent_copyExternalLocked _ _ _ _).calm fun _ ↦ ?_
      refine calm_bind (calm_step trivial) fun _ ↦ calm_bind (calm_step trivial) fun _ ↦ ?_
      exact calm_ite (calm_bind silent_release.calm fun _ ↦ trivial) trivial
    · exact calm_bind (calm_step trivial) fun _ ↦ calm_bind (calm_step trivial) fun _ ↦ trivial

theorem resize_ends {s : Sys} {sp : SpaceId → Space} {owed : Multiset BackingId}
    (h : s.Tidy sp owed) (n : NoteId) (size : ℕ) :
    Ends (resize n size) s fun _ s' ↦ s'.Tidy sp owed ∧ s.SpacesKept s' := by
  refine ends_ite (fun _ ↦ Prog.ends_pure ⟨h, .refl s⟩) fun _ ↦ ?_
  refine Silent.ends (silent_step trivial) fun i s1 h1 ↦ ?_
  refine ends_ite (fun _ ↦ Prog.ends_pure ⟨h.same h1, h1.kept.spacesKept⟩) fun _ ↦ ?_
  refine Silent.ends (silent_step trivial) fun v s2 h2 ↦ ends_exec rfl (ends_exec rfl ?_)
  have hsame := h1.trans h2
  have hunlock : ∀ {s3 : Sys} (v : Lineage) (status : Status), s.Same s3 →
      Ends (do .step (.unlockLineage i.lineage v); pure status) s3
        fun _ s' ↦ s'.Tidy sp owed ∧ s.SpacesKept s' := fun v status h3 ↦
    Silent.ends (silent_step trivial) fun _ s4 h4 ↦ Prog.ends_pure
      ⟨h.same (h3.trans h4), (h3.trans h4).kept.spacesKept⟩
  refine ends_ite (fun _ ↦ hunlock v _ hsame) fun hgrow ↦ ?_
  refine Silent.ends silent_resizePrepare fun r s3 h3 ↦ ?_
  refine ends_ite (fun _ ↦ hunlock _ _ (hsame.trans h3)) fun _ ↦ ?_
  refine Silent.ends silent_resizeFile fun status s4 h4 ↦ ?_
  have hlast := h3.trans h4
  refine ends_ite (fun _ ↦ hunlock _ _ (hsame.trans hlast)) fun _ ↦ ends_exec rfl ?_
  have hset : Sys.Tidy { s4 with noteSize := Function.update s4.noteSize n size } sp owed := by
    refine ((h.same hsame).same hlast).setNoteSize fun hactive ↦ ?_
    rw [hlast.activeMappings] at hactive
    rw [hlast.noteSize]
    exact Nat.le_of_not_lt fun hlt ↦ hgrow ⟨hactive, hlt⟩
  refine Silent.ends (silent_step trivial) fun _ s5 h5 ↦ ?_
  refine Silent.ends (CachedPages.silent_release _) fun _ s6 h6 ↦ Prog.ends_pure ?_
  have hend := h5.trans h6
  have hall := hsame.trans hlast
  exact ⟨hset.same hend, hend.space.trans hall.space, hend.nextSpace.trans hall.nextSpace,
    (hend.nextNote.trans hall.nextNote).ge,
    fun n _ ↦ congrFun (hend.noteInfo.trans hall.noteInfo) n⟩

end Note

end MiniMM
