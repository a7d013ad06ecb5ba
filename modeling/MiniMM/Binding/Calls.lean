import MiniMM.Binding.Notes
import MiniMM.Binding.Remap

/-!
# Whole calls

Each call leaves the counts in order and the bindings of every space in line with its mappings.
-/

namespace MiniMM

open Vma Code Binding

namespace Sys

variable {i : SpaceId} {s s' s'' : Sys} {owed : Multiset BackingId}

/-- What every call leaves that starts in an orderly state. -/
structure Onward (s s' : Sys) : Prop where
  tidy : s'.Tidy s'.space 0
  later : s.Later s'

/-- Only the space `i` has changed. -/
structure Touched (i : SpaceId) (s s' : Sys) : Prop where
  other : ∀ j, j ≠ i → s'.space j = s.space j
  later : (s.space i).Later (s'.space i)
  nextSpace : s'.nextSpace = s.nextSpace
  noteInfo : s'.noteInfo = s.noteInfo
  nextNote : s'.nextNote = s.nextNote

theorem Onward.trans (h : Later s s') (h' : Onward s' s'') : Onward s s'' :=
  ⟨h'.tidy, h.trans h'.later⟩

theorem Kept.onward (h : Kept s s') (htidy : s'.Tidy s.space 0) : Onward s s' :=
  ⟨h.space ▸ htidy, h.spacesKept.later⟩

theorem Tidy.onward (h : s.Tidy s.space 0) : s.Onward s := (Kept.refl s).onward h

theorem Touched.laterAll (h : Touched i s s') : Later s s' := by
  refine ⟨h.nextSpace.ge, fun j _ ↦ ?_, h.nextNote.ge, fun n _ ↦ congrFun h.noteInfo n⟩
  by_cases hj : j = i
  · rw [hj]
    exact h.later
  · rw [h.other j hj]
    exact .refl _

theorem Touched.kept (h : Touched i s s') (hkept : Kept s' s'') : Touched i s s'' := by
  refine ⟨fun j hj ↦ ?_, ?_, hkept.nextSpace.trans h.nextSpace, hkept.noteInfo.trans h.noteInfo,
    hkept.nextNote.trans h.nextNote⟩ <;> rw [hkept.space]
  · exact h.other j hj
  · exact h.later

theorem SpaceOk.unlock {c : Space} (h : s.SpaceOk c) (space : SpaceId → Space)
    (held : LockId → Bool) : SpaceOk { s with space := space, held := held } c where
  good := h.good
  nodup := h.nodup
  bound := by
    intro a x hx
    obtain ⟨β, hβ, hk, hbacks⟩ := h.bound a x hx
    exact ⟨β, hβ, hk, hbacks.shared, hbacks.rights, hbacks.offset⟩
  used := h.used
  cookie := h.cookie
  next := h.next
  backing := h.backing

end Sys

namespace Space

variable {i : SpaceId} {s : Sys} {owed : Multiset BackingId} {α : Type}

theorem ends_guard {c : Prop} [Decidable c] {a : α} {p : Code α} (h : s.Tidy s.space 0)
    (hp : ¬c → Ends p s fun _ s' ↦ s.Onward s') :
    Ends (if c then pure a else p) s fun _ s' ↦ s.Onward s' :=
  ends_ite (fun _ ↦ Prog.ends_pure h.onward) hp

theorem lockSpace_ends (i : SpaceId) (s : Sys) :
    Ends (.step (.lockSpace i)) s fun c s1 ↦ c = s.space i ∧ s.Same s1 := by
  refine Prog.ends_step fun c s1 hexec ↦ ?_
  have hsame := Sys.lock_same hexec
  simp only [Sys.exec, Sys.lock] at hexec
  split at hexec <;> cases hexec
  exact ⟨rfl, hsame⟩

/-- A call under the lock of a space. `Q` is what else its result says, of what it leaves in the
space and of the system. -/
theorem withLock_ends {busy : α} {body : Space → Code (α × Space)} (owes : α → Multiset BackingId)
    (Q : α → Space → Sys → Prop) (hi : i < s.nextSpace) (h : s.Tidy s.space owed)
    (hbusy : owes busy = owed) (hQ : ∀ s', s.Same s' → Q busy (s.space i) s')
    (hunlock : ∀ r c (s' : Sys) space held,
      Q r c s' → Q r c { s' with space := space, held := held })
    (hbody : ∀ s1, s.Same s1 → Held i s (s.space i) owed s1 →
      Ends (body (s.space i)) s1 fun r s' ↦ Leaves i s (owes r.1) r.2 s' ∧ Q r.1 r.2 s') :
    Ends (withLock i busy body) s fun r s' ↦
      s'.Tidy s'.space (owes r) ∧ s.Touched i s' ∧ Q r (s'.space i) s' := by
  have hfinish : ∀ {s1 : Sys} {r : α} {c : Space}, Leaves i s (owes r) c s1 → Q r c s1 →
      Ends (do .step (.unlockSpace i c); pure r) s1 fun r s' ↦
        s'.Tidy s'.space (owes r) ∧ s.Touched i s' ∧ Q r (s'.space i) s' := by
    intro s1 r c hleaves hr
    refine ends_exec rfl (Prog.ends_pure ⟨?_, ⟨fun j hj ↦ ?_, ?_, hleaves.kept.nextSpace,
      hleaves.kept.noteInfo, hleaves.kept.nextNote⟩, ?_⟩)
    · rw [hleaves.kept.space]
      exact hleaves.tidy.unlock _ _
    · dsimp only
      rw [Function.update_of_ne hj, hleaves.kept.space]
    · dsimp only
      rw [Function.update_self]
      exact hleaves.later
    · dsimp only
      rw [Function.update_self]
      exact hunlock r c s1 _ _ hr
  refine (lockSpace_ends i s).bind ?_
  rintro _ s1 ⟨rfl, hsame⟩
  have hheld : Held i s (s.space i) owed s1 := ⟨rfl, hi, hsame.kept, h.same hsame⟩
  refine ends_ite (fun _ ↦ hfinish ?_ (hQ s1 hsame)) fun _ ↦ ?_
  · rw [hbusy]
    exact hheld.unchanged (.refl _)
  · exact (hbody s1 hsame hheld).bind fun r s2 hr ↦ hfinish hr.1 hr.2

theorem withLock_onward {busy : α} {body : Space → Code (α × Space)} (hi : i < s.nextSpace)
    (h : s.Tidy s.space 0)
    (hbody : ∀ s1, Held i s (s.space i) 0 s1 → Ends (body (s.space i)) s1 fun r s' ↦
      Leaves i s 0 r.2 s') :
    Ends (withLock i busy body) s fun _ s' ↦ s.Onward s' := by
  refine (withLock_ends (fun _ ↦ 0) (fun _ _ _ ↦ True) hi h rfl (fun _ _ ↦ trivial)
    (fun _ _ _ _ _ _ ↦ trivial) fun s1 _ h1 ↦ ?_).mono fun r s' hr ↦ ⟨hr.1, hr.2.1.laterAll⟩
  exact (hbody s1 h1).mono fun _ _ hr ↦ ⟨hr, trivial⟩

theorem withLock_quiet {busy : α} {body : Space → Code (α × Space)} (hi : i < s.nextSpace)
    (h : s.Tidy s.space 0) (hbody : ∀ c, Quiet (body c) fun r ↦ Alike c r.2) :
    Ends (withLock i busy body) s fun _ s' ↦ s.Onward s' :=
  withLock_onward hi h fun _ h1 ↦ h1.ends_quiet (hbody _)

/-- A call under the lock that hands back bindings to be destroyed. `Q` is what else its result
says of what it leaves in the space. -/
theorem withLock_destroy_leaves {β : Type} {busy : α} {body : Space → Code (α × Space)}
    (removed : α → List Binding) (result : α → β) (Q : α → Space → Prop) (hi : i < s.nextSpace)
    (h : s.Tidy s.space owed) (hbusy : references (removed busy) = owed)
    (hQ : Q busy (s.space i))
    (hbody : ∀ s1, s.Same s1 → Held i s (s.space i) owed s1 →
      Ends (body (s.space i)) s1 fun r s' ↦
        Leaves i s (references (removed r.1) + 0) r.2 s' ∧ Q r.1 r.2) :
    Ends (do
      let r ← withLock i busy body
      listDestroy (removed r)
      pure (result r)) s fun x s' ↦ s.Onward s' ∧ ∃ r, result r = x ∧ Q r (s'.space i) := by
  refine (withLock_ends (fun r ↦ references (removed r) + 0) (fun r c _ ↦ Q r c) hi h
    ((add_zero _).trans hbusy) (fun _ _ ↦ hQ) (fun _ _ _ _ _ hr ↦ hr) hbody).bind
    fun r s1 hr ↦ ?_
  refine (listDestroy_ends hr.1).bind fun _ s2 h2 ↦ Prog.ends_pure ⟨⟨?_, ?_⟩, r, rfl, ?_⟩
  · rw [h2.1.space]
    exact h2.2
  · exact (hr.2.1.kept h2.1).laterAll
  · rw [h2.1.space]
    exact hr.2.2

theorem withLock_destroy {β : Type} {busy : α} {body : Space → Code (α × Space)}
    (removed : α → List Binding) (result : α → β) (hi : i < s.nextSpace)
    (h : s.Tidy s.space owed) (hbusy : references (removed busy) = owed)
    (hbody : ∀ s1, s.Same s1 → Held i s (s.space i) owed s1 →
      Ends (body (s.space i)) s1 fun r s' ↦ Leaves i s (references (removed r.1) + 0) r.2 s') :
    Ends (do
      let r ← withLock i busy body
      listDestroy (removed r)
      pure (result r)) s fun _ s' ↦ s.Onward s' := by
  refine (withLock_destroy_leaves removed result (fun _ _ ↦ True) hi h hbusy trivial
    fun s1 hsame h1 ↦ ?_).mono fun _ _ hr ↦ hr.1
  exact (hbody s1 hsame h1).mono fun _ _ hr ↦ ⟨hr, trivial⟩

/-! ## Mapping calls -/

theorem mappingValidateBacking_ends (s : Sys) (args : MmapArgs) (length : ℕ) (maximum : Prot) :
    Ends (mappingValidateBacking args length maximum) s fun status s' ↦ s.Same s' ∧
      (status = .ok → ∀ n, args.note = some n →
        (s.noteInfo n).rights.Covers args.flags.shared maximum ∧
          args.noteOffset + length ≤ s.noteSize n) := by
  refine ends_ite (fun _ ↦ Prog.ends_pure ⟨.refl s, fun hok n hn ↦ ?_⟩) fun _ ↦ ?_
  · rw [if_neg (by simp [hn])] at hok
    cases hok
  · split
    · exact Prog.ends_pure ⟨.refl s, fun hok ↦ nomatch hok⟩
    next m hm =>
    refine ends_ite (fun _ ↦ Prog.ends_pure ⟨.refl s, fun hok ↦ nomatch hok⟩) fun _ ↦ ?_
    refine ends_exec rfl (ends_ite (fun _ ↦ Prog.ends_pure ⟨.refl s, fun hok ↦ nomatch hok⟩) ?_)
    intro hrights
    refine ends_exec rfl (Prog.ends_pure ⟨.refl s, fun hok n hn ↦ ?_⟩)
    rw [hm] at hn
    cases hn
    split_ifs at hok with hsize
    refine ⟨⟨?_, fun hshared ↦ ?_, fun hshared hwrite ↦ ?_, fun hedit ↦ ?_⟩, by omega⟩ <;>
      by_contra hno <;> rw [Bool.not_eq_true] at hno
    · exact hrights (.inl hno)
    · exact hrights (.inr (.inl ⟨hshared, hno⟩))
    · exact hrights (.inr (.inr (.inl ⟨hshared, hwrite, hno⟩)))
    · exact hrights (.inr (.inr (.inr ⟨hedit, hno⟩)))

theorem backs_made {b : BackingId} {args : MmapArgs} {length : ℕ} {maximum : Prot}
    (hnote : (s.backingInfo b).note = args.note)
    (hkind : (s.backingInfo b).kind.shared = args.flags.shared)
    (hvalid : ∀ n, args.note = some n → (s.noteInfo n).rights.Covers args.flags.shared maximum ∧
      args.noteOffset + length ≤ s.noteSize n) (address cookie a : ℕ)
    (ha : (mappingMakeVma args address (address + length) maximum cookie).contains a = true) :
    s.Backs b ((mappingMakeVma args address (address + length) maximum cookie).view a) := by
  refine ⟨hkind, fun n hn ↦ (hvalid n (hnote ▸ hn)).1, fun n hn ↦ ?_⟩
  have hroom := (hvalid n (hnote ▸ hn)).2
  rw [contains_iff] at ha
  simp only [Vma.view, mappingMakeVma] at ha ⊢
  omega

/-- What `minimm_mmap` answers: if there is an address, the mapping at it has the protection that
was asked for. -/
def Placed (args : MmapArgs) (address : ℕ) (c : Space) : Prop :=
  address ≠ addressAuto → ∃ x, viewAt c.vmaSnapshot.ranges address = some x ∧
    x.prot = args.protection

theorem placed_auto (args : MmapArgs) (c : Space) : Placed args addressAuto c :=
  fun hne ↦ absurd rfl hne

theorem rightsOf_silent (note : Option NoteId) : Silent (rightsOf note) := by
  cases note with
  | none => trivial
  | some n => exact silent_bind (silent_step trivial) fun _ ↦ trivial

theorem unlockBrk_ends {b : Brk} {f : Unit → Code α} {R : α → Sys → Prop}
    (hf : ∀ s', s.Same s' → Ends (f ()) s' R) : Ends (.step (.unlockBrk i b) >>= f) s R :=
  ends_exec rfl (hf _ ⟨rfl, rfl, rfl, rfl, rfl, rfl, rfl, rfl, rfl⟩)

theorem brkLocked_ends {γ : Type} {body : Brk → Code (α × Brk)} (result : Brk → α → Brk → γ)
    (hbody : ∀ b s1, s.Same s1 → Ends (body b) s1 fun _ s' ↦ s1.Onward s') :
    Ends (do
      let b ← .step (.lockBrk i)
      let (r, after) ← body b
      .step (.unlockBrk i after)
      pure (result b r after)) s fun _ s' ↦ s.Onward s' := by
  refine Silent.ends (silent_step trivial) fun b s1 h1 ↦ (hbody b s1 h1).bind fun r s2 h2 ↦ ?_
  refine unlockBrk_ends fun s3 h3 ↦ Prog.ends_pure ?_
  exact .trans (h1.kept.spacesKept.later.trans h2.later) (h3.kept.onward (h2.tidy.same h3))

section Calls

variable (hi : i < s.nextSpace) (h : s.Tidy s.space 0)

include hi h

theorem mmapChecked_ends {args : MmapArgs}
    (hnote : ∀ n, args.note = some n → n < s.nextNote) {length : ℕ} (hlength : 0 < length)
    (maximum : Prot) :
    Ends (mmapChecked i args length maximum) s fun r s' ↦
      s.Onward s' ∧ Placed args r.2 (s'.space i) := by
  refine (Backing.create_ends h args.flags hnote).bind ?_
  rintro ⟨status, b⟩ s1 ⟨hkept, ⟨hbad, htidy⟩ | ⟨hok, htidy, hinfo, hkind⟩⟩
  · exact ends_ite (fun _ ↦ Prog.ends_pure ⟨hkept.onward htidy, placed_auto _ _⟩)
      fun hok ↦ absurd hbad hok
  refine ends_ite (fun hbad ↦ absurd hok hbad) fun _ ↦ ?_
  refine (mappingValidateBacking_ends s1 args length maximum).bind fun status s2 ⟨h12, hvalid⟩ ↦ ?_
  have hbinding : Ends (if status = .ok then Binding.create else pure status) s2
      fun status' s' ↦ s2.Same s' ∧ (status' = .ok → status = .ok) := by
    refine ends_ite (fun hstatus ↦ ?_) fun _ ↦ Prog.ends_pure ⟨.refl s2, id⟩
    exact Silent.ends silent_malloc fun _ s' h' ↦ Prog.ends_pure ⟨h', fun _ ↦ hstatus⟩
  refine hbinding.bind fun status' s3 ⟨h23, hstatus⟩ ↦ ?_
  have h13 := h12.trans h23
  have hkept3 := hkept.trans h13.kept
  have htidy3 := htidy.same h13
  refine ends_ite (fun _ ↦ ?_) fun hgood ↦ ?_
  · refine (Backing.release_ends htidy3).bind fun _ s4 h4 ↦ Prog.ends_pure ⟨?_, placed_auto _ _⟩
    exact (hkept3.trans h4.1).onward h4.2
  have hvalid1 := hvalid (hstatus (not_not.1 hgood))
  rw [← hkept3.space] at htidy3
  refine (withLock_destroy_leaves (fun r : Status × ℕ × List Binding ↦ r.2.2)
    (fun r ↦ (r.1, r.2.1)) (fun r c ↦ Placed args r.2.1 c) (hkept3.nextSpace ▸ hi) htidy3 rfl
    (placed_auto _ _) fun s4 h34 h4 ↦ ?_).mono fun _ s' ⟨honward, r, hr, hplaced⟩ ↦ ?_
  · have hbacks := fun address cookie a ha ↦
      (backs_made hinfo hkind hvalid1 address cookie a ha).recounted (h13.trans h34).recounted
    refine (mmapLocked_ends h4 hbacks).mono fun r s' hr ↦ ⟨hr.1, fun hne ↦ ?_⟩
    refine ⟨_, (hr.2 hne).placed _ (Vma.contains_iff.2 ⟨le_rfl, ?_⟩), rfl⟩
    exact Nat.lt_add_of_pos_right hlength
  · subst hr
    exact ⟨Sys.Onward.trans hkept3.spacesKept.later honward, hplaced⟩

theorem mmap_placed {args : MmapArgs}
    (hnote : ∀ n, args.note = some n → n < s.nextNote) :
    Ends (mmap i args) s fun r s' ↦ s.Onward s' ∧ Placed args r.2 (s'.space i) := by
  have hsame : ∀ {s' : Sys}, s.Same s' → s.Onward s' := fun h' ↦ h'.kept.onward (h.same h')
  refine ends_ite (fun _ ↦ Prog.ends_pure ⟨hsame (.refl s), placed_auto _ _⟩) fun _ ↦ ?_
  refine Silent.ends (rightsOf_silent args.note) fun rights s1 h1 ↦ ?_
  refine ends_ite (fun _ ↦ Prog.ends_pure ⟨hsame h1, placed_auto _ _⟩) fun _ ↦ ?_
  split
  · exact Prog.ends_pure ⟨hsame h1, placed_auto _ _⟩
  next length hlength =>
  refine (mmapChecked_ends (h1.nextSpace ▸ hi) (h1.space ▸ h.same h1)
    (fun n hn ↦ h1.nextNote ▸ hnote n hn) (mappingAlignLength_pos hlength) _).mono fun _ s' h' ↦ ?_
  exact ⟨.trans h1.kept.spacesKept.later h'.1, h'.2⟩

theorem mmap_ends {args : MmapArgs}
    (hnote : ∀ n, args.note = some n → n < s.nextNote) :
    Ends (mmap i args) s fun _ s' ↦ s.Onward s' :=
  (mmap_placed hi h hnote).mono fun _ _ h' ↦ h'.1

theorem munmap_ends (address length : ℕ) :
    Ends (munmap i address length) s fun _ s' ↦ s.Onward s' := by
  unfold munmap
  split
  · exact Prog.ends_pure h.onward
  refine ends_guard h fun _ ↦ ?_
  exact withLock_destroy (fun r : Status × List Binding ↦ r.2) (fun r ↦ r.1) hi h rfl
    fun s1 _ h1 ↦ munmapLocked_ends h1 _ _

theorem mprotect_ends (address length : ℕ)
    (protection : Prot) : Ends (mprotect i address length protection) s fun _ s' ↦ s.Onward s' := by
  refine ends_guard h fun _ ↦ ?_
  refine ends_ite (fun _ ↦ ends_guard h fun _ ↦ ?_) fun _ ↦ ?_
  · exact ends_exec rfl (Prog.ends_pure h.onward)
  split
  · exact Prog.ends_pure h.onward
  refine ends_guard h fun _ ↦ ?_
  exact withLock_onward hi h fun s1 h1 ↦ mprotectLocked_ends h1 _ _ _

theorem mappingCopy_ends (source length hint : ℕ) :
    Ends (mappingCopy i source length hint) s fun _ s' ↦ s.Onward s' := by
  unfold mappingCopy
  split
  · exact Prog.ends_pure h.onward
  refine ends_guard h fun _ ↦ ?_
  exact withLock_destroy (fun r : Status × ℕ × List Binding ↦ r.2.2) (fun r ↦ (r.1, r.2.1)) hi h rfl
    fun s1 _ h1 ↦ mappingCopyLocked_ends h1 _ _ _

theorem mremap_ends
    (oldAddress oldLength newLength : ℕ) (flags : MremapFlags) (hint : ℕ) :
    Ends (mremap i oldAddress oldLength newLength flags hint) s fun _ s' ↦ s.Onward s' := by
  refine ends_guard h fun _ ↦ ?_
  refine ends_guard h fun _ ↦ ?_
  split
  next hnew =>
    refine ends_guard h fun _ ↦ ?_
    exact withLock_destroy (fun r : Status × ℕ × List Binding ↦ r.2.2) (fun r ↦ (r.1, r.2.1)) hi
      h rfl fun s1 _ h1 ↦ mremapLocked_ends h1 _ _ (mappingAlignLength_pos hnew) _ _
  · exact Prog.ends_pure h.onward

/-! ## The break -/

theorem brkMapRange_ends (start stop : ℕ) :
    Ends (brkMapRange i start stop) s fun _ s' ↦ s.Onward s' := by
  refine (mmap_ends hi h fun n hn ↦ by cases hn).bind fun r s1 h1 ↦ ?_
  refine ends_ite (fun _ ↦ ?_) fun _ ↦ Prog.ends_pure h1
  refine (munmap_ends (hi.trans_le h1.later.nextSpace) h1.tidy _ _).bind fun _ s2 h2 ↦ ?_
  exact Prog.ends_pure (.trans h1.later h2)

theorem extendHeap_ends (base start stop : ℕ) :
    Ends (extendHeap i base start stop) s fun _ s' ↦ s.Onward s' :=
  ends_ite (fun _ ↦ Prog.ends_pure ((Sys.Kept.refl s).onward h)) fun _ ↦
    withLock_onward hi h fun _ h1 ↦ extendHeapLocked_ends h1 _ _ _

theorem brkSetLocked_ends (b : Brk)
    (requestedEnd : ℕ) : Ends (brkSetLocked i b requestedEnd) s fun _ s' ↦ s.Onward s' := by
  refine ends_guard h fun _ ↦ ?_
  refine Prog.Ends.bind (Q := fun _ s' ↦ s.Onward s') ?_ fun _ s' h' ↦ Prog.ends_pure h'
  refine ends_guard h fun _ ↦ ?_
  refine ends_ite (fun _ ↦ brkMapRange_ends hi h _ _) fun _ ↦ ?_
  refine ends_ite (fun _ ↦ munmap_ends hi h _ _) fun _ ↦ ?_
  refine ends_ite (fun _ ↦ munmap_ends hi h _ _) fun _ ↦ ?_
  refine (extendHeap_ends hi h _ _ _).bind fun status s1 h1 ↦ ?_
  refine ends_ite (fun _ ↦ ?_) fun _ ↦ Prog.ends_pure h1
  exact (brkMapRange_ends (hi.trans_le h1.later.nextSpace) h1.tidy _ _).mono fun _ _ h2 ↦
    .trans h1.later h2

theorem brk_ends (requestedEnd : ℕ) :
    Ends (brk i requestedEnd) s fun _ s' ↦ s.Onward s' := by
  refine brkLocked_ends (fun _ status b ↦ (status, b.brkEnd)) fun b s1 h1 ↦ ?_
  have htidy : s1.Tidy s1.space 0 := h1.space ▸ h.same h1
  exact ends_ite (fun _ ↦ brkSetLocked_ends (h1.nextSpace ▸ hi) htidy b _) fun _ ↦
    Prog.ends_pure ((Sys.Kept.refl s1).onward htidy)

theorem sbrk_ends (increment : ℤ) :
    Ends (sbrk i increment) s fun _ s' ↦ s.Onward s' := by
  refine brkLocked_ends (fun b status _ ↦ (status, b.brkEnd)) fun b s1 h1 ↦ ?_
  have htidy : s1.Tidy s1.space 0 := h1.space ▸ h.same h1
  unfold sbrkSetLocked
  split
  · exact Prog.ends_pure ((Sys.Kept.refl s1).onward htidy)
  · exact ends_ite (fun _ ↦ brkSetLocked_ends (h1.nextSpace ▸ hi) htidy b _) fun _ ↦
      Prog.ends_pure ((Sys.Kept.refl s1).onward htidy)

/-! ## Making, forking and ending spaces -/

end Calls

theorem silent_allocateAll (n : ℕ) : Silent (allocateAll n) := by
  induction n with
  | zero => trivial
  | succ n ih => exact silent_bind silent_malloc fun _ ↦ silent_ite ih trivial

end Space

namespace Sys

variable {s s' : Sys} {sp : SpaceId → Space} {owed : Multiset BackingId}

theorem Tidy.newSpace (h : s.Tidy sp owed) (hnext : s'.nextSpace = s.nextSpace + 1)
    (hs : s.Recounted { s' with space := s.space, nextSpace := s.nextSpace })
    (hrefs : s'.backingRefs = s.backingRefs) (hactive : s'.activeMappings = s.activeMappings) :
    s'.Tidy (Function.update sp s.nextSpace .new) owed := by
  have hsum : ∑ i ∈ Finset.range s'.nextSpace,
    (Function.update sp s.nextSpace Space.new i).backings =
      ∑ i ∈ Finset.range s.nextSpace, (sp i).backings := by
    rw [hnext, Finset.sum_range_succ, Function.update_self]
    refine (add_zero _).trans (Finset.sum_congr rfl fun i hi ↦ ?_)
    rw [Function.update_of_ne (Finset.mem_range.1 hi).ne]
  have hinfo : s'.backingInfo = s.backingInfo := hs.backingInfo
  have hbacking : s'.nextBacking = s.nextBacking := hs.nextBacking
  have hext : Extends s s' := ⟨hbacking.ge, fun b _ ↦ congrFun hinfo b, fun _ _ _ n _ ↦
    ⟨congrFun hs.noteInfo n, (congrFun hs.noteSize n).ge⟩⟩
  refine ⟨?_, ?_, fun n ↦ ?_, ?_, ?_, fun i hi ↦ ?_⟩
  · rw [hsum, hrefs]
    exact h.refs
  · rw [hbacking]
    exact h.owed
  · rw [hactive, Tidy.liveBackings_eq (fun b _ ↦ congrFun hinfo b) (fun b _ ↦ by rw [hrefs])
      hbacking]
    exact h.active n
  · rw [hbacking, hinfo, show s'.nextNote = s.nextNote from hs.nextNote]
    exact h.note
  · rw [hbacking, hinfo]
    exact h.anonymous
  · rw [hnext] at hi
    rcases Nat.lt_succ_iff_lt_or_eq.1 hi with hlt | rfl
    · rw [Function.update_of_ne hlt.ne]
      exact (h.spaces i hlt).extend hext fun β hβ ↦ h.live_of_binding hlt hβ
    · rw [Function.update_self]
      exact .new

end Sys

namespace Space

variable {i : SpaceId} {s : Sys} {α : Type}

/-- What `minimm_space_create` leaves: nothing, or a new space without mappings. -/
def MadeSpace (s : Sys) (r : Status × Option SpaceId) (s' : Sys) : Prop :=
  (r.2 = none ∧ s.Same s') ∨ (r.2 = some s.nextSpace ∧
    s'.Tidy (Function.update s.space s.nextSpace .new) 0 ∧
    s'.space = Function.update s.space s.nextSpace .new ∧ s'.nextSpace = s.nextSpace + 1 ∧
    s'.noteInfo = s.noteInfo ∧ s'.nextNote = s.nextNote)

theorem createLocked_ends (h : s.Tidy s.space 0) : Ends createLocked s (MadeSpace s) := by
  refine Silent.ends (silent_allocateAll 3) fun _ s1 h1 ↦ ?_
  refine ends_ite (fun _ ↦ Prog.ends_pure (.inl ⟨rfl, h1⟩)) fun _ ↦ ?_
  refine Silent.ends (silent_step trivial) fun _ s2 h2 ↦ ?_
  refine ends_ite (fun _ ↦ Prog.ends_pure (.inl ⟨rfl, h1.trans h2⟩)) fun _ ↦ ?_
  refine Silent.ends (silent_allocateAll 4) fun _ s3 h3 ↦ ?_
  have hsame := (h1.trans h2).trans h3
  refine ends_ite (fun _ ↦ Prog.ends_pure (.inl ⟨rfl, hsame⟩)) fun _ ↦ ?_
  refine ends_exec rfl (Prog.ends_pure (.inr ⟨by rw [hsame.nextSpace], ?_, ?_, ?_, ?_⟩))
  · rw [← hsame.nextSpace]
    exact (h.same hsame).newSpace rfl ⟨⟨rfl, rfl, rfl, rfl, rfl⟩, rfl, rfl⟩ rfl rfl
  · rw [hsame.nextSpace, hsame.space]
  · rw [hsame.nextSpace]
  · exact ⟨hsame.noteInfo, hsame.nextNote⟩

/-- A new space is the only one that is not as the locked part of a call has left it. -/
theorem onward_made {t s' : Sys} (htidy : s'.Tidy s'.space 0)
    (hlater : ∀ j < s.nextSpace, (s.space j).Later (t.space j))
    (hspace : ∀ j, j ≠ s.nextSpace → s'.space j = t.space j)
    (hnext : s'.nextSpace = s.nextSpace + 1) (hinfo : s'.noteInfo = s.noteInfo)
    (hnote : s'.nextNote = s.nextNote) : s.Onward s' :=
  ⟨htidy, hnext ▸ Nat.le_succ _, fun j hj ↦ hspace j hj.ne ▸ hlater j hj, hnote.ge,
    fun n _ ↦ congrFun hinfo n⟩

theorem create_made (h : s.Tidy s.space 0) : Ends create s fun r s' ↦
    s.Onward s' ∧ ∀ i, r.2 = some i → i < s'.nextSpace := by
  refine (createLocked_ends h).bind ?_
  rintro ⟨status, made⟩ s1 (⟨hnone, hsame⟩ | ⟨hsome, htidy, hspace, hnext, hinfo, hnote⟩)
  · cases hnone
    exact Prog.ends_pure ⟨hsame.kept.onward (h.same hsame), fun _ hi ↦ nomatch hi⟩
  · cases hsome
    refine ends_exec rfl (unlockBrk_ends fun s2 h2 ↦ Prog.ends_pure ?_)
    refine ⟨onward_made (t := s) ?_ (fun j _ ↦ .refl _) (fun j hj ↦ ?_) (h2.nextSpace.trans hnext)
      (h2.noteInfo.trans hinfo) (h2.nextNote.trans hnote), fun i hi ↦ ?_⟩
    · rw [h2.space, hspace, Function.update_idem]
      exact (htidy.unlock _ _).same h2
    · rw [h2.space]
      dsimp only
      rw [hspace, Function.update_of_ne hj, Function.update_of_ne hj]
    · cases hi
      rw [h2.nextSpace]
      exact hnext.symm ▸ Nat.lt_succ_self _

theorem create_ends (h : s.Tidy s.space 0) : Ends create s fun _ s' ↦ s.Onward s' :=
  (create_made h).mono fun _ _ h' ↦ h'.1

theorem destroy_ends (hi : i < s.nextSpace) (h : s.Tidy s.space 0) :
    Ends (destroy i) s fun _ s' ↦ s.Onward s' := by
  refine (lockSpace_ends i s).bind ?_
  rintro _ s1 ⟨rfl, h1⟩
  have hput : s1.Tidy (Function.update s.space i (s.space i).closed)
      (references (s.space i).bindings + 0) :=
    (h.same h1).put (h1.nextSpace ▸ hi) (.of_empty rfl rfl (h.spaces i hi).next) (zero_add _)
  refine (destroyLocked_ends h1.space hput).mono fun _ s' ⟨htidy, hspace, hnext, hinfo, hnote⟩ ↦ ?_
  refine ⟨htidy, (hnext.trans h1.nextSpace).ge, fun j _ ↦ ?_, (hnote.trans h1.nextNote).ge,
    fun n _ ↦ congrFun (hinfo.trans h1.noteInfo) n⟩
  rw [hspace]
  by_cases hj : j = i
  · rw [hj, Function.update_self]
    exact ⟨le_rfl, fun β hβ ↦ nomatch hβ⟩
  · rw [Function.update_of_ne hj]
    exact .refl _

theorem fork_ends (hi : i < s.nextSpace) (h : s.Tidy s.space 0) :
    Ends (fork i) s fun _ s' ↦ s.Onward s' := by
  refine (createLocked_ends h).bind ?_
  rintro ⟨status, made⟩ s1 (⟨hnone, hsame⟩ | ⟨hsome, htidy, hspace, hnext, hinfo, hnote⟩)
  · cases hnone
    exact Prog.ends_pure (hsame.kept.onward (h.same hsame))
  cases hsome
  refine Silent.ends (silent_step trivial) fun brk s2 h2 ↦ ?_
  have hspace2 := h2.space.trans hspace
  have hi2 : i < s2.nextSpace := h2.nextSpace.symm ▸ hnext.symm ▸ Nat.lt_succ_of_lt hi
  have htidy2 : s2.Tidy s2.space 0 := hspace2.symm ▸ htidy.same h2
  refine (withLock_ends (fun r ↦ references r.2.bindings + 0) (fun r _ s' ↦ s'.SpaceOk r.2) hi2
    htidy2 rfl (fun _ _ ↦ .new) (fun _ _ _ _ _ hok ↦ hok.unlock _ _)
    fun _ _ h' ↦ forkLocked_ends h').bind ?_
  rintro ⟨status, contents⟩ s3 ⟨htidy3, htouched, hok3⟩
  refine unlockBrk_ends fun s4 h4 ↦ ?_
  -- the child is still as it was made, and the other spaces are as the call has left them
  have hchild : s4.space s.nextSpace = .new := by
    rw [h4.space, htouched.other _ hi.ne', hspace2, Function.update_self]
  have hlater : ∀ j < s.nextSpace, (s.space j).Later (s4.space j) := fun j hj ↦ by
    have hj' := htouched.laterAll.space j (h2.nextSpace.symm ▸ hnext.symm ▸ Nat.lt_succ_of_lt hj)
    rwa [hspace2, Function.update_of_ne hj.ne, ← h4.space] at hj'
  have hnext4 : s4.nextSpace = s.nextSpace + 1 := by
    rw [h4.nextSpace, htouched.nextSpace, h2.nextSpace, hnext]
  have hinfo4 : s4.noteInfo = s.noteInfo := by
    rw [h4.noteInfo, htouched.noteInfo, h2.noteInfo, hinfo]
  have hnote4 : s4.nextNote = s.nextNote := by
    rw [h4.nextNote, htouched.nextNote, h2.nextNote, hnote]
  have htidy4 : s4.Tidy s4.space (references contents.bindings + 0) :=
    h4.space ▸ htidy3.same h4
  have hlt : s.nextSpace < s4.nextSpace := hnext4 ▸ Nat.lt_succ_self _
  refine ends_ite (fun _ ↦ ?_) fun _ ↦ ?_
  · refine (Binding.listDestroy_ends htidy4).bind fun _ s5 ⟨h5, htidy5⟩ ↦ ?_
    refine unlockBrk_ends fun s6 h6 ↦ ?_
    have hspace6 := h6.space.trans h5.space
    have hnext6 := h6.nextSpace.trans (h5.nextSpace.trans hnext4)
    have hput : s6.Tidy (Function.update s4.space s.nextSpace contents.unbound.closed)
        (references contents.unbound.bindings + 0) := by
      refine (htidy5.same h6).put (hnext6 ▸ Nat.lt_succ_self _) (.of_empty rfl rfl hok3.next) ?_
      rw [hchild]
      rfl
    refine (destroyLocked_ends hspace6 hput).bind
      fun _ s' ⟨htidy', hspace', hnext', hinfo', hnote'⟩ ↦ Prog.ends_pure ?_
    refine onward_made htidy' hlater (fun j hj ↦ ?_) (hnext'.trans hnext6)
      (hinfo'.trans (h6.noteInfo.trans (h5.noteInfo.trans hinfo4)))
      (hnote'.trans (h6.nextNote.trans (h5.nextNote.trans hnote4)))
    rw [hspace', Function.update_of_ne hj]
  · have hput : s4.Tidy (Function.update s4.space s.nextSpace contents) 0 := by
      refine htidy4.put hlt (hok3.extend ?_ fun β hβ ↦ htidy3.live_of_owed ?_) ?_
      · exact h4.kept.extend h4.nextBacking.ge fun b _ ↦ congrFun h4.backingInfo b
      · exact Multiset.mem_add.2 (.inl (Multiset.mem_coe.2 (List.mem_map_of_mem hβ)))
      · rw [hchild, add_zero, add_zero]
        exact (zero_add _).symm
    refine ends_exec rfl (unlockBrk_ends fun s5 h5 ↦ Prog.ends_pure ?_)
    refine onward_made ?_ hlater (fun j hj ↦ ?_) (h5.nextSpace.trans hnext4)
      (h5.noteInfo.trans hinfo4) (h5.nextNote.trans hnote4)
    · rw [h5.space]
      exact (hput.unlock _ _).same h5
    · rw [h5.space]
      exact Function.update_of_ne hj _ _

/-! ## Calls that leave the mappings alone -/

theorem emptyRange_ends (h : s.Tidy s.space 0) (i : SpaceId) (address : ℕ) (aligned : Bool) :
    Ends (memoryValidateEmptyRange i address aligned) s fun _ s' ↦ s.Onward s' :=
  ends_guard h fun _ ↦ ends_exec rfl (Prog.ends_pure h.onward)

theorem withMappedRange_ends {failed : Status → α} {body : Space → Code (α × Space)}
    (hi : i < s.nextSpace) (h : s.Tidy s.space 0) (r : MemoryRange)
    (hbody : ∀ c, Quiet (body c) fun r ↦ Alike c r.2) :
    Ends (withMappedRange i r failed body) s fun _ s' ↦ s.Onward s' :=
  withLock_quiet hi h fun c ↦ quiet_ite (Alike.refl c) (hbody c)

variable (hi : i < s.nextSpace) (h : s.Tidy s.space 0)

include hi h

theorem flushTlb_ends :
    Ends (flushTlb i) s fun _ s' ↦ s.Onward s' :=
  withLock_quiet hi h fun c ↦ quiet_seq Tlb.silent_flush fun _ ↦ Alike.refl c

theorem handlePageFault_ends (address : ℕ)
    (access : Access) : Ends (handlePageFault i address access) s fun _ s' ↦ s.Onward s' :=
  withLock_quiet hi h fun c ↦ quiet_handlePageFaultLocked i c address access _

theorem getFaultTrace_ends :
    Ends (getFaultTrace i) s fun _ s' ↦ s.Onward s' :=
  withLock_quiet hi h fun c ↦ Alike.refl c

theorem clearFaultTrace_ends :
    Ends (clearFaultTrace i) s fun _ s' ↦ s.Onward s' :=
  withLock_quiet hi h fun _ ↦ ⟨rfl, rfl, rfl⟩

theorem accessMemory_ends (address : ℕ)
    (access : Access) (x : Transfer) (spin : ℕ) :
    Ends (accessMemory i address access x spin) s fun _ s' ↦ s.Onward s' :=
  ends_ite (fun _ ↦ Prog.ends_pure ((Sys.Kept.refl s).onward h)) fun _ ↦
    withLock_quiet hi h fun c ↦ quiet_accessLoop i address access x spin _ c 0 []

theorem msync_ends (address length : ℕ) :
    Ends (msync i address length) s fun _ s' ↦ s.Onward s' := by
  refine ends_ite (fun _ ↦ emptyRange_ends h i address true) fun _ ↦ ?_
  split
  · exact Prog.ends_pure ((Sys.Kept.refl s).onward h)
  · exact withLock_quiet hi h fun c ↦ quiet_msyncLoop i _ _ c _ _

theorem mincore_ends (address length count : ℕ) :
    Ends (mincore i address length count) s fun _ s' ↦ s.Onward s' := by
  refine ends_ite (fun _ ↦ ?_) fun _ ↦ ?_
  · exact (emptyRange_ends h i address true).bind fun _ _ h' ↦ Prog.ends_pure h'
  split
  · exact Prog.ends_pure h.onward
  refine ends_guard h fun _ ↦ withMappedRange_ends hi h _ fun c ↦ ?_
  exact quiet_seq (silent_mincoreLoop c _ _ _) fun _ ↦ Alike.refl c

theorem mlock_ends (address length : ℕ) :
    Ends (mlock i address length) s fun _ s' ↦ s.Onward s' := by
  refine ends_ite (fun _ ↦ emptyRange_ends h i address false) fun _ ↦ ?_
  split
  · exact Prog.ends_pure ((Sys.Kept.refl s).onward h)
  refine Silent.ends silent_malloc fun allocated s1 h1 ↦ ?_
  refine ends_ite (fun _ ↦ Prog.ends_pure (h1.kept.onward (h.same h1))) fun _ ↦ ?_
  refine (withMappedRange_ends (h1.nextSpace ▸ hi) (h1.space ▸ h.same h1) _
    (quiet_mlockLocked i _)).mono fun _ s' h' ↦ ?_
  exact .trans h1.kept.spacesKept.later h'

theorem munlock_ends (address length : ℕ) :
    Ends (munlock i address length) s fun _ s' ↦ s.Onward s' := by
  refine ends_ite (fun _ ↦ emptyRange_ends h i address false) fun _ ↦ ?_
  split
  · exact Prog.ends_pure ((Sys.Kept.refl s).onward h)
  refine withMappedRange_ends hi h _ fun c ↦ ?_
  refine quiet_seq (PageTable.silent_walkRange fun _ _ ↦ silent_munlockBody) fun _ ↦ ?_
  exact alike_setTable

theorem madvise_ends (address length : ℕ)
    (advice : Advice) : Ends (madvise i address length advice) s fun _ s' ↦ s.Onward s' := by
  refine ends_guard h fun _ ↦ ?_
  refine ends_ite (fun _ ↦ emptyRange_ends h i address true) fun _ ↦ ?_
  split
  · exact Prog.ends_pure h.onward
  · exact withMappedRange_ends hi h _ (quiet_madviseLocked i _ advice)

end Space

/-! ## Note calls -/

theorem Code.Calm.onward {α : Type} {p : Code α} {s : Sys} (hp : Calm p) (h : s.Tidy s.space 0) :
    Ends p s fun _ s' ↦ s.Onward s' :=
  (hp.ends h).mono fun _ _ h' ↦ ⟨h'.2.space ▸ h'.1, h'.2.later⟩

theorem Note.resize_onward {s : Sys} (h : s.Tidy s.space 0) (n : NoteId) (size : ℕ) :
    Ends (Note.resize n size) s fun _ s' ↦ s.Onward s' :=
  (Note.resize_ends h n size).mono fun _ _ h' ↦ ⟨h'.2.space ▸ h'.1, h'.2.later⟩

end MiniMM
