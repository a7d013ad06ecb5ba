import MiniMM.Binding.Edits
import MiniMM.Spec.NoteCalls

/-!
# Specifications of mapping backings and bindings
-/

namespace MiniMM

open Handle

variable {μ : Mode} {b : BackingId} {n : NoteId} {s : Sys}

/-! ## Single steps -/

theorem newBacking_spec (info : BackingInfo) :
    Triple μ 0 info.sites (fun _ ↦ True) (.step (.newBacking info)) (fun b ↦ {backing b})
      fun b s ↦ BackingIs b info s := by
  refine .step (fun _ _ _ h ↦ h) (fun _ _ _ ↦ ⟨(add_zero _).le, trivial⟩)
    fun {w w' r} _ _ _ hn _ ↦ ⟨add_comm _ _, ?_⟩
  obtain ⟨woken, hexec⟩ := hn.exec
  obtain ⟨hr, hs⟩ := Prog.Outcome.ok.inj hexec
  rw [← hs, ← hr]
  exact ⟨Nat.lt_succ_self _, Function.update_self _ _ _⟩

theorem retainBacking_spec :
    Triple μ {backing b} 0 (fun _ ↦ True) (Backing.retain b) (fun _ ↦ {backing b})
      fun _ _ ↦ True :=
  .act (fun _ hle ↦ ⟨le_rfl, Multiset.mem_of_le hle (by simp)⟩) rfl

theorem dropBacking_spec :
    Triple μ 0 {backing b} (fun _ ↦ True) (.step (.dropBacking b))
      (fun r ↦ r.elim 0 fun r ↦ CachedPages.sites r.1 + r.2.sites) fun _ _ ↦ True := by
  refine .act (fun _ _ ↦ ⟨(add_zero _).le, trivial⟩) fun {_ r} ↦ ?_
  rw [add_comm]
  refine congrArg₂ (· + ·) rfl ?_
  cases r with
  | none => rfl
  | some r => rfl

/-! ## Backings -/

namespace Backing

/-- What a mapping of a note needs of its caller. -/
def NoteExists (note : Option NoteId) (s : Sys) : Prop := ∀ n, note = some n → n < s.nextNote

theorem NoteExists.keeps {note : Option NoteId} {x : Multiset Handle} {s s' : Sys}
    (h : NoteExists note s) (hk : Keeps x s s') : NoteExists note s' :=
  fun n hn ↦ (h n hn).trans_le hk.nextNote

/-- The handle of a backing that a call returns. -/
def gotBacking (r : Status × BackingId) : Multiset Handle := if r.1 = .ok then {backing r.2} else 0

/-- A new backing of a mapping with the given flags. -/
def Made (note : Option NoteId) (flags : MapFlags) (r : Status × BackingId) (s : Sys) : Prop :=
  r.1 = .ok → ∃ kind, BackingIs r.2 ⟨kind, note⟩ s ∧ kind.shared = flags.shared

theorem create_spec (note : Option NoteId) (flags : MapFlags) :
    Triple μ 0 0 (NoteExists note) (create note flags) gotBacking (Made note flags) := by
  intro s x w hK hat hnote
  unfold create
  by_cases hflags : flags.anonymous = note.isSome
  · rw [if_pos hflags]
    exact ⟨hat, nofun⟩
  rw [if_neg hflags]
  refine malloc_spec.next hat trivial fun allocated w1 hat1 hk1 _ ↦ ?_
  by_cases ha : allocated = false
  · rw [if_pos ha]
    exact ⟨hat1, nofun⟩
  rw [if_neg ha]
  cases note with
  | none =>
    refine (newBacking_spec _).next hat1 trivial fun b w2 hat2 _ his ↦ ?_
    refine ⟨hat2, fun _ ↦ ⟨_, his, ?_⟩⟩
    cases flags.shared <;> rfl
  | some n =>
    have hlt := hnote.keeps hk1 n rfl
    refine Note.mappingAttach_spec.next hat1 hlt
      fun status w2 hat2 hk2 _ ↦ ?_
    by_cases hstatus : status ≠ .ok
    · rw [if_pos hstatus]
      rw [if_neg hstatus] at hat2
      exact ⟨hat2.congr (if_neg hstatus).symm, fun h ↦ absurd h hstatus⟩
    rw [if_neg hstatus]
    rw [if_pos (not_not.1 hstatus), add_zero] at hat2
    refine retainNote_spec.seq (F := {mapping n}) hat2 (zero_add _).symm zero_le
      (hlt.trans_le hk2.nextNote) fun _ w3 hat3 _ _ ↦ ?_
    refine (newBacking_spec _).first hat3 trivial
      fun b w4 hat4 _ his ↦ ?_
    refine ⟨hat4, fun _ ↦ ⟨_, his, ?_⟩⟩
    cases flags.shared <;> rfl

theorem release_spec :
    Spends μ 0 {backing b} (fun _ ↦ True) (release b) := by
  intro s x w hK hat _
  refine dropBacking_spec.first hat trivial
    fun r w1 hat1 _ _ ↦ ?_
  cases r with
  | none => exact ⟨hat1, trivial⟩
  | some r =>
    obtain ⟨pages, info⟩ := r
    simp only [Option.elim, add_zero] at hat1
    refine (CachedPages.release_spec pages).seq hat1 rfl zero_le trivial
      fun _ w2 hat2 _ _ ↦ ?_
    rw [zero_add, BackingInfo.sites] at hat2
    split
    · rename_i hnone
      rw [hnone] at hat2
      exact ⟨hat2, trivial⟩
    · rename_i n hn
      rw [hn] at hat2
      have hlt : n < w2.sys.nextNote :=
        hat2.inv.note_lt (Multiset.mem_of_le hat2.le (by simp))
      refine Note.mappingDetach_spec.seq (F := {note n}) hat2 ?_ zero_le hlt
        fun _ w3 hat3 _ _ ↦ ?_
      · exact add_comm {note n} {mapping n}
      · exact Note.release_spec s x w3 hK (hat3.congr (zero_add _)) trivial

theorem newSharedPage_spec :
    Triple μ 0 0 (fun _ ↦ True) newSharedPage (fun r ↦ got r.1 r.2) fun _ _ ↦ True := by
  intro s x w hK hat _
  refine malloc_spec.next hat trivial fun allocated w1 hat1 _ _ ↦ ?_
  split_ifs with ha
  · exact ⟨hat1, trivial⟩
  refine (MiniMM.create_spec _ _ _ _).next hat1 trivial ?_
  rintro ⟨status, f⟩ w2 hat2 - -
  dsimp only at hat2 ⊢
  split_ifs with hstatus
  · rw [got_of_ne hstatus] at hat2
    exact ⟨hat2.congr (got_of_ne hstatus).symm, trivial⟩
  rw [not_not.1 hstatus, got_ok] at hat2
  exact ensureOrRelease_spec (fun status ↦ (status, 0)) (.ok, f) (fun _ h ↦ got_of_ne h) got_ok
    s x w2 hK hat2 trivial

theorem unlockWith_spec {pages : CachedPages} {α : Type} (a : α) (G : α → Multiset Handle)
    (hsorted : pages.Sorted) :
    Triple μ 0 ({lock (.backing b)} + pages.sites + G a) (fun _ ↦ True)
      (do
        .step (.unlockBacking b pages)
        Pure.pure a)
      (fun r ↦ {backing b} + G r) fun r _ ↦ r = a := by
  intro s x w hK hat _
  refine (unlockBacking_spec hsorted).seq (F := G a) hat rfl zero_le trivial fun _ w1 hat1 _ _ ↦ ?_
  exact ⟨hat1, rfl⟩

theorem found_spec {pages : CachedPages} {offset : ℕ} {f : FrameId} {α : Type} (a : α)
    {G : α → Multiset Handle} (hf : CachedPages.find offset pages = some f)
    (hsorted : pages.Sorted) (hG : G a = {ref f}) :
    Triple μ 0 ({lock (.backing b)} + pages.sites) (fun _ ↦ True)
      (do
        frameRetain f
        .step (.unlockBacking b pages)
        Pure.pure a)
      (fun r ↦ {backing b} + G r) fun _ _ ↦ True := by
  intro s x w hK hat _
  have hmem := CachedPages.ref_mem_sites (CachedPages.mem_of_find hf)
  refine retain_spec.seq hat (zero_add _).symm
    ((Multiset.singleton_le.2 hmem).trans ((le_add_left le_rfl).trans le_self_add)) trivial
    fun _ w1 hat1 _ _ ↦ ?_
  exact (unlockWith_spec a G hsorted).last hat1 (by rw [hG, add_zero, add_comm]) trivial

theorem getFrame_spec (offset : ℕ) :
    Triple μ 0 {backing b} (fun _ ↦ True) (getFrame b offset)
      (fun r ↦ {backing b} + got r.1 r.2.1) fun _ _ ↦ True := by
  intro s x w hK hat _
  rw [getFrame]
  by_cases haligned : offset % pageSize ≠ 0
  · rw [if_pos haligned]
    exact ⟨hat, trivial⟩
  rw [if_neg haligned]
  have hmem : backing b ∈ w.mine := Multiset.mem_of_le hat.le (by simp)
  refine backingInfo_spec.seq hat (zero_add _).symm le_self_add (hat.inv.backingIs hmem) ?_
  rintro _ w1 hat1 hk1 ⟨rfl, his1⟩
  rw [zero_add] at hat1
  split
  · rename_i n hn
    have hlt := (hat.inv.backing_note hmem hn).trans_le hk1.nextNote
    refine (Note.getFrame_spec offset).seq (F := {backing b}) hat1 (zero_add _).symm zero_le hlt ?_
    rintro ⟨status, f⟩ w2 hat2 - -
    exact ⟨hat2.congr (add_comm _ _), trivial⟩
  split_ifs with hprivate
  · refine (MiniMM.create_spec _ _ _ _).seq (F := {backing b}) hat1 (zero_add _).symm zero_le
      trivial ?_
    rintro ⟨status, f⟩ w2 hat2 - -
    exact ⟨hat2.congr (add_comm _ _), trivial⟩
  refine lockBacking_spec.first hat1 trivial
    fun pages w2 hat2 _ hsorted ↦ ?_
  rw [add_zero] at hat2
  split
  · rename_i f hf
    exact found_spec (Status.ok, f, false) (G := fun r ↦ got r.1 r.2.1) hf hsorted got_ok s x w2 hK
      hat2 trivial
  rename_i hnone
  refine newSharedPage_spec.aside hat2 trivial ?_
  rintro ⟨status, f⟩ w3 hat3 - -
  dsimp only at hat3 ⊢
  split_ifs with hstatus
  · rw [got_of_ne hstatus] at hat3
    exact (unlockWith_spec (status, 0, false) (fun r ↦ got r.1 r.2.1) hsorted).last hat3
      (by simp [got, hstatus]) trivial
  rw [not_not.1 hstatus, got_ok] at hat3
  refine retain_spec.seq hat3 (zero_add _).symm (le_self_add.trans le_self_add) trivial
    fun _ w4 hat4 _ _ ↦ ?_
  refine (unlockWith_spec (Status.ok, f, true) (fun r ↦ got r.1 r.2.1)
    (hsorted.insert hnone)).last hat4 ?_ trivial
  rw [CachedPages.sites_insert, got_ok, add_zero]
  ac_rfl

theorem peekFrame_spec (offset : ℕ) :
    Triple μ 0 {backing b} (fun _ ↦ True) (peekFrame b offset)
      (fun r ↦ {backing b} + got r.1 r.2) fun _ _ ↦ True := by
  intro s x w hK hat _
  rw [peekFrame]
  by_cases haligned : offset % pageSize ≠ 0
  · rw [if_pos haligned]
    exact ⟨hat, trivial⟩
  rw [if_neg haligned]
  have hmem : backing b ∈ w.mine := Multiset.mem_of_le hat.le (by simp)
  refine backingInfo_spec.seq hat (zero_add _).symm le_self_add (hat.inv.backingIs hmem) ?_
  rintro _ w1 hat1 hk1 ⟨rfl, his1⟩
  rw [zero_add] at hat1
  split
  · rename_i n hn
    have hlt := (hat.inv.backing_note hmem hn).trans_le hk1.nextNote
    exact (Note.peekFrame_spec offset).tail (F := {backing b}) hat1 (zero_add _).symm zero_le hlt
      fun _ w2 hat2 _ _ ↦ ⟨hat2.congr (add_comm _ _), trivial⟩
  split_ifs with hprivate
  · exact ⟨hat1, trivial⟩
  refine lockBacking_spec.first hat1 trivial
    fun pages w2 hat2 _ hsorted ↦ ?_
  rw [add_zero] at hat2
  split
  · rename_i f hf
    exact found_spec (Status.ok, f) (G := fun r ↦ got r.1 r.2) hf hsorted got_ok s x w2 hK
      hat2 trivial
  · exact (unlockWith_spec (Status.notFound, 0) (fun r ↦ got r.1 r.2) hsorted).last hat2
      (by simp [got]) trivial

end Backing

/-! ## Bindings -/

namespace Binding

variable {bindings : List Binding} {binding : Binding}

theorem sites_append (l l' : List Binding) :
    bindingSites (l ++ l') = bindingSites l + bindingSites l' := by
  simp [bindingSites]

theorem sites_of_mem (h : binding ∈ bindings) :
    bindingSites bindings = {Handle.backing binding.backing} + bindingSites
      (bindings.erase binding) := by
  have hperm := (List.perm_cons_erase h).map fun b ↦ Handle.backing b.backing
  exact Multiset.coe_eq_coe.2 hperm

theorem sites_prune (bindings : List Binding) (snapshot : VmaSnapshot) :
    bindingSites bindings = bindingSites (prune bindings snapshot).1 +
      bindingSites (prune bindings snapshot).2 := by
  have h := congrArg (Multiset.map Handle.backing) (prune_backings bindings snapshot)
  rw [Multiset.map_add] at h
  simpa [bindingSites, Function.comp_def] using h.symm

theorem listDestroy_spec (bindings : List Binding) :
    Spends μ 0 (bindingSites bindings) (fun _ ↦ True) (listDestroy bindings) := by
  induction bindings with
  | nil => exact .pure rfl fun _ h ↦ h
  | cons binding rest ih =>
    intro s x w hK hat _
    refine Backing.release_spec.seq (F := bindingSites rest) hat (bindingSites_cons _ _) zero_le
      trivial fun _ w1 hat1 _ _ ↦ ?_
    exact ih s x w1 hK (hat1.congr (zero_add _)) trivial

theorem listCloneFrom_spec (bindings copies : List Binding) :
    Triple μ (bindingSites bindings) (bindingSites copies) (fun _ ↦ True)
      (listCloneFrom bindings copies) (fun r ↦ bindingSites r.2)
      fun r _ ↦ r.1 = .ok ∧ r.2 = copies ++ bindings ∨ r.1 ≠ .ok ∧ r.2 = [] := by
  induction bindings generalizing copies with
  | nil => exact .pure rfl fun _ _ ↦ .inl ⟨rfl, (List.append_nil _).symm⟩
  | cons binding rest ih =>
    intro s x w hK hat _
    rw [bindingSites_cons] at hK
    refine malloc_spec.aside hat trivial fun allocated w1 hat1 _ _ ↦ ?_
    rw [zero_add] at hat1
    split_ifs with ha
    · refine (listDestroy_spec copies).first hat1 trivial
        fun _ w2 hat2 _ _ ↦ ?_
      exact ⟨hat2, .inr ⟨nofun, rfl⟩⟩
    refine retainBacking_spec.seq hat1 (zero_add _).symm
      ((le_self_add.trans hK).trans (le_add_left le_rfl)) trivial fun _ w2 hat2 _ _ ↦ ?_
    refine Prog.wp_mono (ih (copies ++ [binding]) s x w2 ((le_add_left le_rfl).trans hK)
      (hat2.congr ?_) trivial) ?_
    · rw [sites_append, add_comm]
      rfl
    · rintro r w3 ⟨hat3, h3⟩
      rw [List.append_assoc, List.singleton_append] at h3
      exact ⟨hat3, h3⟩

theorem listClone_spec (bindings : List Binding) :
    Triple μ (bindingSites bindings) 0 (fun _ ↦ True) (listClone bindings)
      (fun r ↦ bindingSites r.2)
      fun r _ ↦ r.1 = .ok ∧ r.2 = bindings ∨ r.1 ≠ .ok ∧ r.2 = [] :=
  listCloneFrom_spec bindings []

end Binding

end MiniMM
