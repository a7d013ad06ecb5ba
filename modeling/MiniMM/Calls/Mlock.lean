import MiniMM.Calls.Alone

/-!
# Locking pages as one call

`minimm_mlock` and `minimm_munlock` when nobody else runs.
-/

namespace MiniMM

open Handle Code PageTable

namespace Space

variable {μ : Mode} {i : SpaceId} {s : Sys} {o : Multiset Handle} {address length : ℕ}

/-- The page of an address meets `[address, address + length)`. -/
def OnPages (address length a : ℕ) : Prop :=
  0 < length ∧ address / pageSize ≤ a / pageSize ∧ a / pageSize * pageSize < address + length

instance (address length a : ℕ) : Decidable (OnPages address length a) :=
  inferInstanceAs (Decidable (_ ∧ _))

theorem onPages_iff {r : MemoryRange} (h : memoryPrepareLockRange address length = some r) (a : ℕ) :
    OnPages address length a ↔ Within r.start r.stop (a / pageSize) := by
  unfold memoryPrepareLockRange at h
  simp only at h
  split_ifs at h with hbad hlong hfar
  cases h
  simp only [OnPages, Within, pageOf, pageSize] at *
  omega

/-- The pages are locked. An entry that was there is the same but for the `LOCKED` flag. -/
structure PagesLocked (address length : ℕ) (c c' : Space) : Prop where
  rest : c.setTable c'.pageTable = c'
  others : ∀ a, ¬OnPages address length a → c'.pteAt a = c.pteAt a
  old : ∀ a pte, OnPages address length a → c.pteAt a = some pte →
    c'.pteAt a = some { pte with flags := { pte.flags with locked := true } }
  fresh : ∀ a, OnPages address length a → c.pteAt a = none →
    ∃ pte, c'.pteAt a = some pte ∧ pte.flags.locked = true ∧ pte.flags.accessed = false ∧
      pte.flags.dirty = false

/-- The frames of the pages are resident. -/
def PagesResident (address length : ℕ) (c : Space) (s : Sys) : Prop :=
  ∀ a pte, OnPages address length a → c.pteAt a = some pte → s.store.resident pte.frame = true

/-- The pages are not locked, and nothing else has changed. -/
structure PagesUnlocked (address length : ℕ) (c c' : Space) : Prop where
  rest : c.setTable c'.pageTable = c'
  entries : ∀ a, c'.pteAt a = if OnPages address length a then
    (c.pteAt a).map fun pte ↦ { pte with flags := { pte.flags with locked := false } }
    else c.pteAt a

theorem pagesLocked_refl (c : Space) (address : ℕ) : PagesLocked address 0 c c :=
  ⟨rfl, fun _ _ ↦ rfl, fun _ _ h ↦ absurd h.1 (lt_irrefl 0), fun _ h ↦ absurd h.1 (lt_irrefl 0)⟩

theorem pagesUnlocked_refl (c : Space) (address : ℕ) : PagesUnlocked address 0 c c :=
  ⟨rfl, fun _ ↦ (if_neg fun h ↦ lt_irrefl 0 h.1).symm⟩

theorem lockedPte_eq {v : Vma} {pte : Pte} (h : PteOk v pte) :
    lockedPte pte = { pte with flags := { pte.flags with locked := true } } := by
  unfold lockedPte
  split
  next hlocked => rw [← hlocked]
  next =>
    have hflags : pte.flags.update { locked := true } {} = { pte.flags with locked := true } := by
      simp [PteFlags.update]
    rw [revised, hflags, h.protection, effectiveProtection_twice]
    · rfl
    · exact id

theorem stripped_eq {v : Vma} {pte : Pte} (h : PteOk v pte) :
    stripped PteFlags.locked { locked := true } pte =
      { pte with flags := { pte.flags with locked := false } } := by
  unfold stripped
  split
  next =>
    have hflags : pte.flags.update {} { locked := true } = { pte.flags with locked := false } := by
      simp [PteFlags.update]
    rw [revised, hflags, h.protection, effectiveProtection_twice]
    · rfl
    · exact id
  next hlocked =>
    rw [Bool.not_eq_true] at hlocked
    rw [← hlocked]

theorem onPages_count {r : MemoryRange} (hr : memoryPrepareLockRange address length = some r)
    (a : ℕ) : OnPages address length a ↔ r.start / pageSize ≤ a / pageSize ∧
      a / pageSize < r.start / pageSize + r.pageCount := by
  obtain ⟨-, hlt, -, hstart, hstop⟩ := memoryPrepareLockRange_range hr
  rw [onPages_iff hr]
  simp only [Within, MemoryRange.pageCount, pageSize] at *
  omega

theorem Resident.pages {r : MemoryRange} {c : Space} (hc : c.Wf)
    (hr : memoryPrepareLockRange address length = some r)
    (h : c.Resident (r.start / pageSize) r.pageCount s) : c.PagesResident address length s :=
  fun a pte ha hpte ↦ h _ pte ((onPages_count hr a).1 ha) (by rw [← hc.pteAt, hpte])

theorem Mlocked.pagesLocked {r : MemoryRange} {c c' : Space} (hc : c.Wf) (hc' : c'.Wf)
    (hr : memoryPrepareLockRange address length = some r)
    (h : Mlocked (r.start / pageSize) r.pageCount c c') : PagesLocked address length c c' := by
  have hpte : ∀ {c : Space}, c.Wf → ∀ a, c.pteAt a = c.pageTable.pte (a / pageSize) :=
    fun hwf a ↦ hwf.pteAt a
  have hon := onPages_count hr
  refine ⟨h.rest, fun a ha ↦ ?_, fun a pte ha hold ↦ ?_, fun a ha hold ↦ ?_⟩
  · rw [hpte hc, hpte hc', h.others _ ((hon a).not.1 ha)]
  · rw [hpte hc] at hold
    obtain ⟨v, -, hok⟩ := hc.entry _ _ hold
    rw [hpte hc', h.old _ _ ((hon a).1 ha) hold, lockedPte_eq hok]
  · rw [hpte hc] at hold
    obtain ⟨pte, hnew, haccessed, hdirty⟩ := h.fresh _ ((hon a).1 ha) hold
    refine ⟨lockedPte pte, by rw [hpte hc', hnew], lockedPte_locked pte, ?_, ?_⟩
    · unfold lockedPte
      split
      · exact haccessed
      · simp [revised, PteFlags.update, haccessed]
    · unfold lockedPte
      split
      · exact hdirty
      · simp [revised, PteFlags.update, hdirty]

theorem Stripped.pagesUnlocked {r : MemoryRange} {c c' : Space} (hc : c.Wf) (hc' : c'.Wf)
    (hr : memoryPrepareLockRange address length = some r)
    (h : Stripped r.start r.stop PteFlags.locked { locked := true } c c') :
    PagesUnlocked address length c c' := by
  refine ⟨h.rest, fun a ↦ ?_⟩
  rw [pteAt, pteAt, hc.has.lookup, hc'.has.lookup, h.entries]
  by_cases ha : OnPages address length a
  · rw [if_pos ha, swept_of_within ((onPages_iff hr a).1 ha)]
    cases hold : c.pageTable.pte (a / pageSize) with
    | none => rfl
    | some pte =>
      obtain ⟨v, -, hok⟩ := hc.entry _ _ hold
      rw [Option.bind_some, Option.map_some, stripped_eq hok]
  · rw [if_neg ha, swept_of_not ((onPages_iff hr a).not.1 ha)]

/-! ## The calls -/

theorem emptyRangeStatus_alone {D : Sys → Space → Prop} (hinv : Inv μ ⟨s, 0, o⟩)
    (hdone : D s (s.space i)) :
    Ends (emptyRangeStatus i) s fun status s' ↦ AllOrNothing μ i s o status (D s') s' := by
  rintro status s' hrun
  obtain ⟨closing, _, hexec, hpure⟩ := Prog.run_op_done _ hrun
  cases hexec
  cases hpure
  refine ⟨hinv, .refl s i, ?_⟩
  by_cases hclosing : (s.space i).closing = true
  · rw [if_pos hclosing]
    exact .inr ⟨by decide, .refl _, fun _ ↦ rfl⟩
  · rw [if_neg hclosing]
    exact .inl ⟨rfl, hdone⟩

theorem emptyRange_alone {D : Sys → Space → Prop} {requireAlignment : Bool}
    (hinv : Inv μ ⟨s, 0, o⟩) (hdone : D s (s.space i)) :
    Ends (memoryValidateEmptyRange i address requireAlignment) s fun status s' ↦
      AllOrNothing μ i s o status (D s') s' :=
  ends_ite (fun _ ↦ Prog.ends_pure (.nothing hinv (by decide)))
    fun _ ↦ emptyRangeStatus_alone hinv hdone

theorem withMappedRange_alone {r : MemoryRange} {body : Space → Code (Status × Space)}
    {R : Status × Space → Sys → Prop} {D : Sys → Space → Prop} (hprompt : μ.prompt = false)
    (hinv : Inv μ ⟨s, 0, o⟩) (hi : i < s.nextSpace) (hstill : Still (body (s.space i)))
    (hbody : Works μ 0 i (s.space i) (body (s.space i)) R)
    (hdone : ∀ {r : Status × Space} {s1 : Sys}, (s.space i).Wf → r.2.Wf → R r s1 →
      r.1 = .ok ∧ D (unlocked i r.2 s1) r.2 ∨ r.1 ≠ .ok ∧ Unchanged (s.space i) r.2) :
    Ends (withMappedRange i r id body) s fun status s' ↦
      AllOrNothing μ i s o status (D s') s' := by
  refine withLock_status (R := fun q s1 ↦ R q s1 ∨ q.1 ≠ .ok ∧ q.2 = s.space i) hprompt hinv
    hi (by decide) (fun _ ↦ still_ite trivial hstill) (fun _ ↦ .ite (fun hbad ↦ ?_) fun _ ↦ ?_) ?_
  · exact .pure rfl fun _ h ↦ ⟨h, .inr ⟨hbad, rfl⟩⟩
  · exact hbody.post fun _ _ h ↦ ⟨h.1, .inl h.2⟩
  · rintro ⟨status, c⟩ s1 hwf hwf' (hR | ⟨hbad, rfl⟩)
    · exact hdone hwf hwf' hR
    · exact .inr ⟨hbad, .refl _⟩

theorem mlock_alone (hprompt : μ.prompt = false) (hinv : Inv μ ⟨s, 0, o⟩) (hi : i < s.nextSpace)
    (address length : ℕ) :
    Ends (mlock i address length) s fun status s' ↦ AllOrNothing μ i s o status (fun c ↦
      PagesLocked address length (s.space i) c ∧ c.PagesResident address length s') s' := by
  refine ends_ite (fun hlength ↦ ?_) fun _ ↦ ?_
  · rw [hlength]
    exact emptyRange_alone hinv
      ⟨pagesLocked_refl _ _, fun _ _ h ↦ absurd h.1 (lt_irrefl 0)⟩
  split
  · exact Prog.ends_pure (.nothing hinv (by decide))
  next r hr =>
  obtain ⟨-, hlt, hlimit, hstart, hstop⟩ := memoryPrepareLockRange_range hr
  refine (malloc_spec.still_ends (F := 0) silent_malloc.still hprompt zero_le hinv trivial).bind ?_
  rintro allocated s1 ⟨hinv1, -, -, hstood, htlb⟩
  rw [zero_add] at hinv1
  refine ends_ite (fun _ ↦ Prog.ends_pure (.of_stood hstood htlb (.nothing hinv1 (by decide))))
    fun _ ↦ ?_
  refine (withMappedRange_alone hprompt hinv1 (hstood.nextSpace ▸ hi)
    (quiet_mlockLocked i r _).silent.still (mlockLocked_spec hlt hlimit hstart hstop) ?_).mono
    fun _ _ h ↦ h.of_stood hstood htlb
  rw [hstood.space]
  rintro ⟨status, c⟩ s2 hwf hwf' (⟨hok, hlocked, hresident⟩ | hfail)
  · exact .inl ⟨hok, hlocked.pagesLocked hwf hwf' hr, hresident.pages hwf' hr⟩
  · exact .inr hfail

theorem munlock_alone (hprompt : μ.prompt = false) (hinv : Inv μ ⟨s, 0, o⟩) (hi : i < s.nextSpace)
    (address length : ℕ) :
    Ends (munlock i address length) s fun status ↦
      AllOrNothing μ i s o status (PagesUnlocked address length (s.space i)) := by
  refine ends_ite (fun hlength ↦ ?_) fun _ ↦ ?_
  · rw [hlength]
    exact emptyRange_alone (D := fun _ ↦ PagesUnlocked address 0 (s.space i)) hinv
      (pagesUnlocked_refl _ _)
  split
  · exact Prog.ends_pure (.nothing hinv (by decide))
  next r hr =>
  obtain ⟨-, hlt, hlimit, hstart, hstop⟩ := memoryPrepareLockRange_range hr
  refine withMappedRange_alone (D := fun _ ↦ PagesUnlocked address length (s.space i)) hprompt
    hinv hi (still_bind (silent_walkRange fun _ _ ↦ silent_munlockBody).still fun _ ↦ trivial)
    (munlockLocked_spec hlt hlimit hstart hstop) ?_
  rintro ⟨status, c⟩ s1 hwf hwf' ⟨hok, hstripped⟩
  exact .inl ⟨hok, hstripped.pagesUnlocked hwf hwf' hr⟩

end Space

/-! ## On the system -/

namespace Pool

variable {p : Pool} {i : SpaceId}

/-- `minimm_mlock` locks all pages of the range and leaves their frames resident, `minimm_munlock`
unlocks them, and a call that fails leaves the spaces and the counts of the frames untouched. -/
theorem mlock_munlock_pages (h : Reachable false p) (hi : i < p.sys.nextSpace)
    (address length : ℕ) : Ends (Space.mlock i address length) p.sys (fun status s' ↦
      (status = .ok → (Space.PagesLocked address length (p.sys.space i) (s'.space i) ∧
        (s'.space i).PagesResident address length s') ∧
        ∀ j, j ≠ i → s'.space j = p.sys.space j) ∧
      (status ≠ .ok → p.sys.Untouched s')) ∧
    Ends (Space.munlock i address length) p.sys (fun status s' ↦
      (status = .ok → Space.PagesUnlocked address length (p.sys.space i) (s'.space i) ∧
        ∀ j, j ≠ i → s'.space j = p.sys.space j) ∧
      (status ≠ .ok → p.sys.Untouched s')) := by
  obtain ⟨o, hinv⟩ := h.inv true
  exact ⟨(Space.mlock_alone rfl hinv hi address length).mono fun _ _ h ↦
    ⟨h.succeeded, h.untouched hinv⟩,
    (Space.munlock_alone rfl hinv hi address length).mono fun _ _ h ↦
      ⟨h.succeeded, h.untouched hinv⟩⟩

set_option maxRecDepth 100000 in
theorem written_mlock : (written 20).any (fun p ↦
    answers (Space.mlock 0 0x100800 1) id .ok p && answers (Space.munlock 0 0x100800 1) id .ok p &&
      answers (Space.mlock 0 0x100800 4096) id .notFound p) = true := by
  decide +kernel

/-- The page that was written is locked and unlocked, and a range of which the second page is not
mapped is refused. -/
theorem mlock_munlock_pages_written : ∃ p, Reachable false p ∧
    (∃ s', (Space.mlock 0 0x100800 1).run p.sys = .done .ok s' ∧
      Space.PagesLocked 0x100800 1 (p.sys.space 0) (s'.space 0) ∧
      (s'.space 0).PagesResident 0x100800 1 s') ∧
    (∃ s', (Space.munlock 0 0x100800 1).run p.sys = .done .ok s' ∧
      Space.PagesUnlocked 0x100800 1 (p.sys.space 0) (s'.space 0)) ∧
    ∃ s', (Space.mlock 0 0x100800 4096).run p.sys = .done .notFound s' ∧ p.sys.Untouched s' := by
  obtain ⟨p, hp, htest⟩ := (Option.any_eq_true _ _).1 written_mlock
  rw [Bool.and_eq_true, Bool.and_eq_true] at htest
  obtain ⟨⟨hlock, hunlock⟩, hfail⟩ := htest
  have hreach := reachable_written hp
  refine ⟨p, hreach, ?_, ?_, ?_⟩
  · obtain ⟨hi, _, s', hrun, rfl⟩ := answers_run hlock
    exact ⟨s', hrun, (((mlock_munlock_pages hreach hi 0x100800 1).1 _ s' hrun).1 rfl).1⟩
  · obtain ⟨hi, _, s', hrun, rfl⟩ := answers_run hunlock
    exact ⟨s', hrun, (((mlock_munlock_pages hreach hi 0x100800 1).2 _ s' hrun).1 rfl).1⟩
  · obtain ⟨hi, _, s', hrun, hstatus⟩ := answers_run hfail
    cases hstatus
    exact ⟨s', hrun, ((mlock_munlock_pages hreach hi 0x100800 4096).1 _ s' hrun).2 (by decide)⟩

end Pool

end MiniMM
