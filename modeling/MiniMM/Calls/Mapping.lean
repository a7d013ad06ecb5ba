import MiniMM.Calls.Mlock

/-!
# Mapping, unmapping and protection as one call

`minimm_mmap`, `minimm_munmap`, `minimm_mprotect` and the heap when nobody else runs.
-/

namespace MiniMM

open Handle Code Vma VmaSnapshot PageTable

namespace Space

variable {μ : Mode} {i : SpaceId} {s : Sys} {o : Multiset Handle} {c c' : Space}
  {address size start stop : ℕ} {protection : Prot}

theorem within_iff (hstart : start % pageSize = 0) (hstop : stop % pageSize = 0) (a : ℕ) :
    Within start stop (a / pageSize) ↔ start ≤ a ∧ a < stop := by
  simp only [Within, pageSize] at *
  omega

theorem Wf.pteAt_of_free (h : c.Wf) {a : ℕ} (hfree : viewAt c.vmaSnapshot.ranges a = none) :
    c.pteAt a = none := by
  rw [h.pteAt]
  by_contra hne
  obtain ⟨pte, hpte⟩ := Option.ne_none_iff_exists'.1 hne
  obtain ⟨v, hv, -⟩ := h.entry _ _ hpte
  rw [lookup_page h.snapshot] at hv
  cases hfree.symm.trans (view_of_lookup h.snapshot hv)

/-! ## Unmapping -/

/-- `[address, address + size)` is not mapped any more. A binding stays if a mapping is left that
uses it. -/
structure Cut (address size : ℕ) (c c' : Space) : Prop where
  views : ∀ a, viewAt c'.vmaSnapshot.ranges a =
    if address ≤ a ∧ a < address + size then none else viewAt c.vmaSnapshot.ranges a
  entries : ∀ a, c'.pteAt a = if address ≤ a ∧ a < address + size then none else c.pteAt a
  bindings : c'.bindings = c.bindings.filter fun b ↦ c'.vmaSnapshot.containsCookie b.cookie
  rest : { c with
    pageTable := c'.pageTable, vmaSnapshot := c'.vmaSnapshot, bindings := c'.bindings } = c'

theorem Unmapped.cut (h : Unmapped address (address + size) c c') (hc : c.Wf) (hc' : c'.Wf) :
    Cut address size c c' := by
  have hrange := h.range
  simp only [pageRangeIsValid, Bool.and_eq_true, decide_eq_true_eq] at hrange
  refine ⟨h.snapshot.view, fun a ↦ ?_, h.bindings, h.rest⟩
  rw [hc.pteAt, hc'.pteAt, h.entries, swept, Option.bind_fun_none]
  exact if_congr (within_iff hrange.1.2 hrange.2 a) rfl rfl

theorem munmap_alone (hprompt : μ.prompt = false) (hinv : Inv μ ⟨s, 0, o⟩) (hi : i < s.nextSpace)
    (address length : ℕ) :
    Ends (munmap i address length) s fun status ↦ AllOrNothing μ i s o status fun c' ↦
      ∃ size, mappingAlignLength length = some size ∧ Cut address size (s.space i) c' := by
  unfold munmap
  split
  · exact Prog.ends_pure (.nothing hinv (by decide))
  next size hsize =>
  refine ends_ite (fun _ ↦ Prog.ends_pure (.nothing hinv (by decide))) fun _ ↦ ?_
  refine withLock_destroy_plain_status (D := fun _ c' ↦ ∃ size,
      mappingAlignLength length = some size ∧ Cut address size (s.space i) c')
    (fun r : Status × List Binding ↦ r.2) Prod.fst id hprompt hinv hi rfl (by decide)
    (fun hgood ↦ still_munmapLocked hgood) munmapLocked_spec ?_
  rintro ⟨⟨status, removed⟩, c'⟩ hwf hwf' (⟨hok, hunmapped⟩ | ⟨hbad, -, hsame⟩)
  · exact .inl ⟨hok, size, hsize, hunmapped.cut hwf hwf'⟩
  · cases hsame
    exact .inr ⟨hbad, .refl _⟩

/-! ## Protection -/

/-- `[address, address + size)`, which is mapped all over, has another protection that its mappings
allow, and its entries follow. -/
structure Reguarded (address size : ℕ) (protection : Prot) (c c' : Space) : Prop where
  allowed : ∀ a, address ≤ a → a < address + size →
    ∃ x, viewAt c.vmaSnapshot.ranges a = some x ∧ protection.within x.maxProt = true
  views : ∀ a, viewAt c'.vmaSnapshot.ranges a = (viewAt c.vmaSnapshot.ranges a).map fun x ↦
    if address ≤ a ∧ a < address + size then { x with prot := protection } else x
  entries : ∀ a, c'.pteAt a = (c.pteAt a).map fun pte ↦
    if address ≤ a ∧ a < address + size then
      { pte with protection := effectiveProtection protection pte.flags } else pte
  rest : { c with pageTable := c'.pageTable, vmaSnapshot := c'.vmaSnapshot } = c'

theorem reguarded_refl (c : Space) (address : ℕ) (protection : Prot) :
    Reguarded address 0 protection c c := by
  have hnot : ∀ a, ¬(address ≤ a ∧ a < address + 0) := fun a ↦ by omega
  refine ⟨fun a hge hlt ↦ absurd ⟨hge, hlt⟩ (hnot a), fun a ↦ ?_, fun a ↦ ?_, rfl⟩
  · simp only [hnot, if_false, Option.map_id']
  · simp only [hnot, if_false, Option.map_id']

theorem Guarded.reguarded (h : Guarded address (address + size) protection c c') (hc : c.Wf)
    (hc' : c'.Wf) : Reguarded address size protection c c' := by
  have hrange := h.snapshot.range
  simp only [pageRangeIsValid, Bool.and_eq_true, decide_eq_true_eq] at hrange
  refine ⟨fun a hge hlt ↦ ?_, h.snapshot.view, fun a ↦ ?_, h.rest⟩
  · have hpage := (within_iff hrange.1.2 hrange.2 a).2 ⟨hge, hlt⟩
    obtain ⟨x, hx, hwithin⟩ := h.snapshot.allowed (a / pageSize) hpage
    obtain ⟨v, hv, rfl⟩ := lookup_of_view hc.snapshot hx
    rw [lookup_page hc.snapshot] at hv
    exact ⟨v.view a, view_of_lookup hc.snapshot hv, hwithin⟩
  · rw [hc.pteAt, hc'.pteAt, h.entries]
    cases hpte : c.pageTable.pte (a / pageSize) with
    | none => simp [swept, hpte]
    | some pte =>
      simp only [swept, hpte, Option.bind_some, Option.map_some, revised, update_nothing,
        within_iff hrange.1.2 hrange.2 a]
      split_ifs <;> rfl

theorem mprotect_alone (hprompt : μ.prompt = false) (hinv : Inv μ ⟨s, 0, o⟩) (hi : i < s.nextSpace)
    (address length : ℕ) (protection : Prot) :
    Ends (mprotect i address length protection) s fun status ↦ AllOrNothing μ i s o status fun c' ↦
      ∃ size, (length = 0 ∧ size = 0 ∨ mappingAlignLength length = some size) ∧
        Reguarded address size protection (s.space i) c' := by
  refine ends_ite (fun _ ↦ Prog.ends_pure (.nothing hinv (by decide))) fun _ ↦ ?_
  refine ends_ite (fun hlength ↦ ?_) fun _ ↦ ?_
  · refine ends_ite (fun _ ↦ Prog.ends_pure (.nothing hinv (by decide))) fun _ ↦ ?_
    exact emptyRangeStatus_alone (D := fun _ c' ↦ ∃ size, _ ∧ Reguarded _ size _ _ c') hinv
      ⟨0, .inl ⟨hlength, rfl⟩, reguarded_refl _ _ _⟩
  split
  · exact Prog.ends_pure (.nothing hinv (by decide))
  next size hsize =>
  refine ends_ite (fun _ ↦ Prog.ends_pure (.nothing hinv (by decide))) fun _ ↦ ?_
  refine withLock_status (D := fun _ c' ↦ ∃ size, _ ∧ Reguarded _ size _ _ c') hprompt hinv hi
    (by decide) (fun hgood ↦ still_mprotectLocked hgood) (fun _ ↦ mprotectLocked_spec protection) ?_
  rintro ⟨status, c'⟩ s1 hwf hwf' (⟨hok, hguarded⟩ | ⟨hbad, hsame⟩)
  · exact .inl ⟨hok, size, .inr hsize, hguarded.reguarded hwf hwf'⟩
  · cases hsame
    exact .inr ⟨hbad, .refl _⟩

/-! ## Mapping -/

/-- A new mapping at `[address, address + size)`. Nothing of what was there is left, and without
`MAP_FIXED` nothing was there. It has entries only if it is populated. -/
structure NewlyMapped (args : MmapArgs) (maximum : Prot) (address size : ℕ) (b : BackingId)
    (c c' : Space) : Prop where
  fixed : args.flags.fixed || args.flags.fixedNoreplace → address = args.addressHint
  views : ∀ a, viewAt c'.vmaSnapshot.ranges a = if address ≤ a ∧ a < address + size then
      some ⟨c.nextMappingCookie, args.noteOffset + (a - address), args.protection, maximum,
        args.flags.shared⟩
    else viewAt c.vmaSnapshot.ranges a
  free : replaces args.flags = false → ∀ a, address ≤ a → a < address + size →
    viewAt c.vmaSnapshot.ranges a = none ∧ c.pteAt a = none
  inside : ∀ a pte, address ≤ a → a < address + size → c'.pteAt a = some pte →
    args.flags.populate = true ∧ pte.flags.accessed = false ∧ pte.flags.dirty = false ∧
      pte.flags.locked = false
  others : ∀ a, ¬(address ≤ a ∧ a < address + size) → c'.pteAt a = c.pteAt a
  bindings : c'.bindings = (⟨b, c.nextMappingCookie⟩ :: c.bindings).filter fun β ↦
    c'.vmaSnapshot.containsCookie β.cookie
  rest : { c with
    pageTable := c'.pageTable, vmaSnapshot := c'.vmaSnapshot, bindings := c'.bindings
    nextMappingCookie := c.nextMappingCookie + 1 } = c'

theorem Mmapped.newlyMapped {args : MmapArgs} {maximum : Prot} {b : BackingId}
    (h : Mmapped (c.newVma args size maximum address) b
      (args.flags.populate && args.protection ≠ .none) c c')
    (hfree : replaces args.flags = false →
      Inserted c.vmaSnapshot (c.newVma args size maximum address) c'.vmaSnapshot)
    (hfixed : args.flags.fixed || args.flags.fixedNoreplace → address = args.addressHint)
    (hc : c.Wf) (hc' : c'.Wf) : NewlyMapped args maximum address size b c c' := by
  have hwithin := fun a ↦
    within_iff h.snapshot.valid.startAligned h.snapshot.valid.stopAligned a
  refine ⟨hfixed, fun a ↦ ?_, fun hreplaces a hge hlt ↦ ?_, fun a pte hge hlt hpte ↦ ?_,
    fun a ha ↦ ?_, h.bindings, h.rest⟩
  · rw [h.snapshot.view]
    exact if_congr contains_iff rfl rfl
  · have hnone := (hfree hreplaces).free a (contains_iff.2 ⟨hge, hlt⟩)
    exact ⟨hnone, hc.pteAt_of_free hnone⟩
  · rw [hc'.pteAt] at hpte
    obtain ⟨hpopulate, hflags⟩ := h.inside _ pte ((hwithin a).2 ⟨hge, hlt⟩) hpte
    exact ⟨(Bool.and_eq_true_iff.1 hpopulate).1, hflags⟩
  · rw [hc.pteAt, hc'.pteAt, h.entries _ ((hwithin a).not.2 ha)]

end Space

/-! ## Making a backing, and giving it up -/

/-- Nothing is left but new numbers of backings, which nobody refers to. -/
structure Sys.Restored (s s' : Sys) : Prop where
  store : { s.store with host := s'.store.host } = s'.store
  backings : ∀ b < s.nextBacking, s'.backingInfo b = s.backingInfo b ∧
    s'.backingPages b = s.backingPages b
  rest : { s with
    store := s'.store, backingInfo := s'.backingInfo, backingPages := s'.backingPages
    nextBacking := s'.nextBacking } = s'

theorem Sys.restored_withHost (s : Sys) (host : Host) : s.Restored (s.withHost host) :=
  ⟨rfl, fun _ _ ↦ ⟨rfl, rfl⟩, rfl⟩

theorem Sys.Restored.of_withHost {s s' : Sys} {host : Host} (h : (s.withHost host).Restored s') :
    s.Restored s' :=
  ⟨h.store, h.backings, h.rest⟩

theorem Code.Mallocs.ends_host {α : Type} {p : Code α} {Q : α → Prop} {s : Sys}
    (h : Code.Mallocs (fun _ ↦ True) p Q) :
    Ends p s fun r s' ↦ Q r ∧ ∃ host, s' = s.withHost host := by
  induction p generalizing s with
  | pure a => exact Prog.ends_pure ⟨h, s.store.host, rfl⟩
  | op q k ih =>
    intro r s' hrun
    obtain ⟨hq, hk⟩ := h
    cases q with
    | malloc =>
      obtain ⟨allocated, s1, hexec, hrest⟩ := Prog.run_op_done _ hrun
      cases hexec
      obtain ⟨hQ, host, hs'⟩ := ih _ (hk _ trivial) r s' hrest
      exact ⟨hQ, host, hs'⟩
    | _ => cases hq

theorem Code.malloc_alone (s : Sys) : Ends malloc s fun _ s' ↦ ∃ host, s' = s.withHost host :=
  Prog.ends_step fun _ _ hexec ↦ by
    cases hexec
    exact ⟨_, rfl⟩

theorem Sys.exec_backingInfo {β : Type} {q : Sys.Op β} {s s' : Sys} {r : β}
    (h : s.exec q = .ok r s') : s.nextBacking ≤ s'.nextBacking ∧
      ∀ b < s.nextBacking, s'.backingInfo b = s.backingInfo b := by
  cases q with
  | abort | stuck => cases h
  | newBacking info =>
    cases h
    exact ⟨Nat.le_succ _, fun b hb ↦ Function.update_of_ne hb.ne _ _⟩
  | create | request | store | newNote =>
    simp only [exec] at h
    split at h <;> cases h <;> exact ⟨le_rfl, fun _ _ ↦ rfl⟩
  | lockSpace | lockBrk | lockBacking | lockLineage =>
    obtain ⟨-, -, rfl⟩ := lock_ok h
    exact ⟨le_rfl, fun _ _ ↦ rfl⟩
  | retain | retainBacking | retainNote =>
    simp only [exec, countUp] at h
    split at h <;> cases h
    exact ⟨le_rfl, fun _ _ ↦ rfl⟩
  | _ =>
    cases h
    exact ⟨le_rfl, fun _ _ ↦ rfl⟩

theorem Code.ends_backingInfo {α : Type} (p : Code α) (s : Sys) : Ends p s fun _ s' ↦
    s.nextBacking ≤ s'.nextBacking ∧
      ∀ b < s.nextBacking, s'.backingInfo b = s.backingInfo b := by
  induction p generalizing s with
  | pure a => exact Prog.ends_pure ⟨le_rfl, fun _ _ ↦ rfl⟩
  | op q k ih =>
    intro r s' hrun
    obtain ⟨a, s1, hexec, hrest⟩ := Prog.run_op_done _ hrun
    obtain ⟨hle, hinfo⟩ := Sys.exec_backingInfo hexec
    obtain ⟨hle', hinfo'⟩ := ih a s1 r s' hrest
    exact ⟨hle.trans hle', fun b hb ↦ (hinfo' b (hb.trans_le hle)).trans (hinfo b hb)⟩

namespace Backing

variable {s : Sys} {n : NoteId} {note : Option NoteId} {info : BackingInfo}

/-- The kind of backing that a mapping with these flags has. -/
def kindOf (flags : MapFlags) : Option NoteId → BackingKind
  | none => if flags.shared then .anonShared else .anonPrivate
  | some _ => if flags.shared then .noteShared else .notePrivate

/-- The note, if there is one, has not been released. -/
def NoteHeld (note : Option NoteId) (s : Sys) : Prop := ∀ n, note = some n → 0 < s.noteRefs n

/-- A note counts one more mapping, and one more reference. -/
def attached (s : Sys) : Option NoteId → Sys
  | none => s
  | some n => { s with
      activeMappings := Function.update s.activeMappings n (s.activeMappings n + 1)
      noteRefs := Function.update s.noteRefs n (s.noteRefs n + 1) }

/-- A backing has just been made. -/
def opened (info : BackingInfo) (s : Sys) : Sys :=
  { attached s info.note with
    backingInfo := Function.update s.backingInfo s.nextBacking info
    backingPages := Function.update s.backingPages s.nextBacking []
    backingRefs := Function.update s.backingRefs s.nextBacking 1
    nextBacking := s.nextBacking + 1 }

theorem opened_withHost (host : Host) :
    (opened info s).withHost host = opened info (s.withHost host) := by
  obtain ⟨kind, note⟩ := info
  cases note <;> rfl

theorem opened_space : (opened info s).space = s.space := by
  obtain ⟨kind, note⟩ := info
  cases note <;> rfl

theorem opened_held : (opened info s).held = s.held := by
  obtain ⟨kind, note⟩ := info
  cases note <;> rfl

theorem lockLineage_alone {l : LineageId} : Ends (.step (.lockLineage l)) s fun v s1 ↦
    s.held (.lineage l) = false ∧ v = s.lineage l ∧
      s1 = { s with held := Function.update s.held (.lineage l) true } :=
  Prog.ends_step fun _ _ hexec ↦ Sys.lock_ok hexec

theorem mappingAttach_alone : Ends (Note.mappingAttach n) s fun status s' ↦
    (status ≠ .ok ∧ s' = s) ∨ (status = .ok ∧ s' = { s with
      activeMappings := Function.update s.activeMappings n (s.activeMappings n + 1) }) := by
  refine ends_exec rfl (lockLineage_alone.bind ?_)
  rintro _ _ ⟨hfree, rfl, rfl⟩
  refine ends_exec rfl (ends_ite (fun _ ↦ ?_) fun _ ↦ ?_)
  · refine ends_exec rfl (Prog.ends_pure (.inl ⟨by decide, ?_⟩))
    rw [Function.update_idem, Function.update_eq_self, ← hfree, Function.update_eq_self]
  · refine ends_exec rfl (ends_exec rfl (Prog.ends_pure (.inr ⟨rfl, ?_⟩)))
    rw [Function.update_idem, Function.update_eq_self, ← hfree, Function.update_eq_self]

theorem mappingDetach_alone (hpos : 0 < s.activeMappings n) :
    Ends (Note.mappingDetach n) s fun _ s' ↦ s' = { s with
      activeMappings := Function.update s.activeMappings n (s.activeMappings n - 1) } := by
  refine ends_exec rfl (lockLineage_alone.bind ?_)
  rintro _ _ ⟨hfree, rfl, rfl⟩
  refine ends_exec rfl ?_
  rw [Code.when, if_neg (by simpa using hpos.ne')]
  refine ends_exec rfl (Prog.ends_step fun _ s' hexec ↦ ?_)
  cases hexec
  rw [Function.update_idem, Function.update_eq_self, ← hfree, Function.update_eq_self]

theorem noteRetain_alone : Ends (Note.retain n) s fun _ s' ↦
    s' = { s with noteRefs := Function.update s.noteRefs n (s.noteRefs n + 1) } := by
  refine Prog.ends_step fun _ s' hexec ↦ ?_
  simp only [Sys.exec, Sys.countUp] at hexec
  split at hexec <;> cases hexec
  rfl

theorem noteRelease_alone (hmore : 1 < s.noteRefs n) : Ends (Note.release n) s fun _ s' ↦
    s' = { s with noteRefs := Function.update s.noteRefs n (s.noteRefs n - 1) } := by
  refine ends_exec rfl ?_
  rw [decide_eq_false hmore.ne']
  exact Prog.ends_pure rfl

theorem create_alone (flags : MapFlags) : Ends (create note flags) s fun r s' ↦
    (r.1 ≠ .ok ∧ ∃ host, s' = s.withHost host) ∨ (r = (.ok, s.nextBacking) ∧
      ∃ host, s' = opened ⟨kindOf flags note, note⟩ (s.withHost host)) := by
  refine ends_ite (fun _ ↦ Prog.ends_pure (.inl ⟨nofun, s.store.host, rfl⟩)) fun _ ↦ ?_
  refine (malloc_alone s).bind ?_
  rintro allocated _ ⟨host, rfl⟩
  refine ends_ite (fun _ ↦ Prog.ends_pure (.inl ⟨nofun, host, rfl⟩)) fun _ ↦ ?_
  cases note with
  | none => exact ends_exec rfl (Prog.ends_pure (.inr ⟨rfl, host, rfl⟩))
  | some n =>
    refine mappingAttach_alone.bind ?_
    rintro status _ (⟨hbad, rfl⟩ | ⟨rfl, rfl⟩)
    · rw [if_pos hbad]
      exact Prog.ends_pure (.inl ⟨hbad, host, rfl⟩)
    · rw [if_neg (by decide)]
      refine noteRetain_alone.bind ?_
      rintro _ _ rfl
      exact ends_exec rfl (Prog.ends_pure (.inr ⟨rfl, host, rfl⟩))

theorem release_alone (hfresh : s.backingRefs s.nextBacking = 0) (hheld : NoteHeld info.note s) :
    Ends (release s.nextBacking) (opened info s) fun _ s' ↦ s.Restored s' := by
  obtain ⟨kind, note⟩ := info
  have hrefs : Function.update (Function.update s.backingRefs s.nextBacking 1) s.nextBacking
      (1 - 1) = s.backingRefs := by
    rw [Function.update_idem, Nat.sub_self, ← hfresh, Function.update_eq_self]
  have hold : ∀ {β : Type} (f : BackingId → β) (x : β), ∀ b < s.nextBacking,
      Function.update f s.nextBacking x b = f b :=
    fun f x b hb ↦ Function.update_of_ne hb.ne _ _
  refine ends_exec rfl ?_
  have hone : (opened ⟨kind, note⟩ s).backingRefs s.nextBacking = 1 := Function.update_self ..
  have hpages : (opened ⟨kind, note⟩ s).backingPages s.nextBacking = [] :=
    Function.update_self ..
  have hinfo : (opened ⟨kind, note⟩ s).backingInfo s.nextBacking = ⟨kind, note⟩ :=
    Function.update_self ..
  rw [if_pos hone, hpages, hinfo, hone]
  cases note with
  | none =>
    refine Prog.ends_pure ⟨rfl, fun b hb ↦ ⟨hold _ _ b hb, hold _ _ b hb⟩, ?_⟩
    simp only [opened, attached, hrefs]
  | some n =>
    refine (mappingDetach_alone (by simp [opened, attached])).bind ?_
    rintro _ _ rfl
    refine (noteRelease_alone (by simpa [opened, attached] using hheld n rfl)).mono ?_
    rintro _ _ rfl
    refine ⟨rfl, fun b hb ↦ ⟨hold _ _ b hb, hold _ _ b hb⟩, ?_⟩
    simp only [opened, attached, hrefs, Function.update_self, Function.update_idem,
      Nat.add_sub_cancel, Function.update_eq_self]

end Backing

namespace Space

variable {μ : Mode} {i : SpaceId} {s : Sys} {o : Multiset Handle} {c c' : Space}
  {address size start stop : ℕ} {protection : Prot}

/-- The protection that bounds those of a new mapping. -/
structure MaximumOk (args : MmapArgs) (maximum : Prot) : Prop where
  within : args.protection.within maximum = true
  given : args.maximumProtection ≠ .none → maximum = args.maximumProtection

theorem mmapChecked_alone (hprompt : μ.prompt = false) (hinv : Inv μ ⟨s, 0, o⟩)
    (hi : i < s.nextSpace) {args : MmapArgs} (hnote : Backing.NoteExists args.note s)
    (maximum : Prot) (size : ℕ) :
    Ends (mmapChecked i args size maximum) s fun r ↦ AllOrNothing μ i s o r.1
      (NewlyMapped args maximum r.2 size s.nextBacking (s.space i)) := by
  refine (((Backing.create_spec args.note args.flags).still_ends (F := 0) Backing.still_create
    hprompt zero_le hinv hnote).and (Backing.create_alone args.flags)).bind ?_
  rintro ⟨status, b⟩ s1 ⟨⟨hinv1, -, hmade, hstood1, htlb1⟩, hcreated⟩
  dsimp only at hinv1 hmade hcreated ⊢
  refine ends_ite (fun hbad ↦ Prog.ends_pure (.of_stood hstood1 htlb1 (.nothing ?_ hbad)))
    fun hok ↦ ?_
  · rwa [Backing.gotBacking, if_neg hbad, add_zero] at hinv1
  rw [not_not] at hok
  obtain ⟨kind, hinfo, hshared⟩ := hmade hok
  obtain rfl : b = s.nextBacking := by
    obtain ⟨heq, -⟩ := hcreated.resolve_left fun h ↦ h.1 hok
    exact (Prod.mk.inj heq).2
  rw [Backing.gotBacking, if_pos hok, add_zero] at hinv1
  refine ((mappingValidateBacking_spec args size maximum).still_ends (F := {backing s.nextBacking})
    still_mappingValidateBacking hprompt zero_le (by rwa [zero_add]) trivial).bind ?_
  rintro status s2 ⟨hinv2, hkeeps2, -, hstood2, htlb2⟩
  have hcreate : Spends μ 0 0 (fun _ ↦ True)
      (if status = .ok then Binding.create else pure status) :=
    .ite (fun _ ↦ bindingCreate_spec) fun _ ↦ .pure rfl fun _ _ ↦ trivial
  refine (hcreate.still_ends (F := {backing s.nextBacking})
    (still_ite Binding.silent_create.still trivial) hprompt zero_le hinv2 trivial).bind ?_
  rintro status s3 ⟨hinv3, hkeeps3, -, hstood3, htlb3⟩
  rw [zero_add] at hinv3
  have hstood : s.Stood s3 := (hstood1.trans hstood2).trans hstood3
  have htlb : ∀ j, s.held (.space j) = false → s3.tlb j = s.tlb j := fun j hj ↦ by
    rw [htlb3 j (((hstood1.trans hstood2).held j).trans hj), htlb2 j ((hstood1.held j).trans hj),
      htlb1 j hj]
  have hinfo3 : BackingIs s.nextBacking ⟨kind, args.note⟩ s3 := (hinfo.keeps hkeeps2).keeps hkeeps3
  refine ends_ite (fun hbad ↦ ?_) fun _ ↦ ?_
  · refine (Backing.release_spec.still_ends (F := 0) Backing.still_release hprompt zero_le
      (by rwa [add_zero]) trivial).bind ?_
    rintro _ s4 ⟨hinv4, -, -, hstood4, htlb4⟩
    rw [zero_add] at hinv4
    refine Prog.ends_pure (.of_stood (hstood.trans hstood4) (fun j hj ↦ ?_) (.nothing hinv4 hbad))
    rw [htlb4 j ((hstood.held j).trans hj), htlb j hj]
  · refine (withLock_destroy_status (D := fun x ↦ NewlyMapped args maximum x.2 size
        s.nextBacking (s.space i))
      (P := BackingIs s.nextBacking ⟨kind, args.note⟩) (fun r : Status × ℕ × List Binding ↦ r.2.2)
      (fun r ↦ (r.1, r.2.1)) Prod.fst hprompt hinv3 (hstood.nextSpace ▸ hi) rfl
      (fun h ↦ by cases h) ⟨hinfo3.1, hinfo3.2⟩ (fun hgood ↦ still_mmapLocked hgood)
      (mmapLocked_spec hshared) ?_).mono fun _ _ h ↦ h.of_stood hstood htlb
    rw [hstood.space]
    rintro ⟨⟨status, address, removed⟩, c'⟩ hwf hwf' (⟨hok, hmapped, hfree, hfixed⟩ |
      ⟨hbad, -, hsame⟩)
    · exact .inl ⟨hok, hmapped.newlyMapped hfree hfixed hwf hwf'⟩
    · cases hsame
      exact .inr ⟨hbad, .refl _⟩

/-! ## A mapping that fails -/

theorem withLock_idle {α : Type} {busy : α} {body : Space → Code (α × Space)} {R E : α → Prop}
    (hbusy : E busy) (hbody : s.held (.space i) = false → ∀ s1, Ends (body (s.space i)) s1
      fun r s2 ↦ R r.1 ∨ r.2 = s.space i ∧ E r.1 ∧ ∃ host, s2 = s1.withHost host) :
    Ends (withLock i busy body) s fun r s' ↦ R r ∨ E r ∧ ∃ host, s' = s.withHost host := by
  have hlock : Ends (.step (.lockSpace i)) s fun c s1 ↦ s.held (.space i) = false ∧
      c = s.space i ∧ s1 = { s with held := Function.update s.held (.space i) true } :=
    Prog.ends_step fun _ _ hexec ↦ Sys.lock_ok hexec
  refine hlock.bind ?_
  rintro _ _ ⟨hfree, rfl, rfl⟩
  -- the lock is given back with the space that it was taken with
  have hunlock : ∀ (r : α) (host : Host), E r → Ends (do
      .step (.unlockSpace i (s.space i))
      pure r) ({ s with held := Function.update s.held (.space i) true }.withHost host)
      fun r s' ↦ R r ∨ E r ∧ ∃ host, s' = s.withHost host := by
    intro r host hr
    refine ends_exec rfl (Prog.ends_pure (.inr ⟨hr, host, ?_⟩))
    simp only [Sys.withHost, Function.update_idem, Function.update_eq_self]
    rw [← hfree, Function.update_eq_self]
  refine ends_ite (fun _ ↦ hunlock busy s.store.host hbusy) fun _ ↦ ?_
  refine (hbody hfree _).bind ?_
  rintro ⟨r, c⟩ _ (hR | ⟨hc, hr, host, rfl⟩)
  · have hreturns : Returns (do
        .step (.unlockSpace i c)
        pure r) R := .seq fun _ ↦ hR
    exact fun _ _ hrun ↦ .inl (hreturns.result hrun)
  · dsimp only at hc
    rw [hc]
    exact hunlock r host hr

theorem mmapLocked_idle {b : BackingId} (h : c.vmaSnapshot.Good) (args : MmapArgs) (length : ℕ)
    (maximum : Prot) (s : Sys) : Ends (mmapLocked i args length maximum b c) s fun r s' ↦
      r.1.1 = .ok ∨ r.2 = c ∧ (r.1.1 ≠ .ok ∧ r.1.2.2 = [⟨b, 0⟩]) ∧
        ∃ host, s' = s.withHost host := by
  refine ends_ite (fun _ ↦ Prog.ends_pure (.inr ⟨rfl, ⟨nofun, rfl⟩, s.store.host, rfl⟩)) fun _ ↦ ?_
  refine (mmapPlace_placement h args length maximum).ends_host.bind ?_
  rintro ⟨status, address, next⟩ _ ⟨hplaced, host, rfl⟩
  cases next with
  | none =>
    refine Prog.ends_pure (.inr ⟨rfl, ⟨?_, rfl⟩, host, rfl⟩)
    rcases hplaced with ⟨-, t, ht, -⟩ | ⟨hbad, -⟩
    · cases ht
    · exact hbad
  | some next =>
    intro r s' hrun
    refine .inl (Returns.result (Q := fun r ↦ r.1.1 = .ok) ?_ hrun)
    exact .seq fun _ ↦ .seq fun _ ↦ .seq fun _ ↦ rfl

theorem mappingValidateBacking_alone (args : MmapArgs) (length : ℕ) (maximum : Prot) (s : Sys) :
    Ends (mappingValidateBacking args length maximum) s fun _ s' ↦ s' = s := by
  refine ends_ite (fun _ ↦ Prog.ends_pure rfl) fun _ ↦ ?_
  split
  · exact Prog.ends_pure rfl
  · refine ends_ite (fun _ ↦ Prog.ends_pure rfl) fun _ ↦ ends_exec rfl ?_
    exact ends_ite (fun _ ↦ Prog.ends_pure rfl) fun _ ↦ ends_exec rfl (Prog.ends_pure rfl)

theorem mmapChecked_failed (hinv : Inv μ ⟨s, 0, o⟩) (hi : i < s.nextSpace) {args : MmapArgs}
    (hheld : Backing.NoteHeld args.note s) (size : ℕ) (maximum : Prot) :
    Ends (mmapChecked i args size maximum) s fun r s' ↦ r.1 ≠ .ok → s.Restored s' := by
  refine (Backing.create_alone args.flags).bind ?_
  rintro ⟨status, b⟩ _ (⟨hbad, host, rfl⟩ | ⟨heq, host, rfl⟩)
  · dsimp only at hbad ⊢
    rw [if_pos hbad]
    exact Prog.ends_pure fun _ ↦ s.restored_withHost host
  cases heq
  dsimp only
  rw [if_neg (by decide)]
  generalize hinfo : (⟨Backing.kindOf args.flags args.note, args.note⟩ : BackingInfo) = info
  have hrelease : ∀ host, Ends (Backing.release s.nextBacking)
      (Backing.opened info (s.withHost host)) fun _ s' ↦ s.Restored s' := fun host ↦
    (Backing.release_alone (s := s.withHost host) (hinv.fresh.backing _ le_rfl)
      (by rw [← hinfo]; exact hheld)).mono fun _ _ h ↦ h.of_withHost
  refine (mappingValidateBacking_alone args size maximum _).bind ?_
  rintro status _ rfl
  have hcreate : Ends (if status = .ok then Binding.create else pure status)
      (Backing.opened info (s.withHost host)) fun _ s' ↦
        ∃ host, s' = Backing.opened info (s.withHost host) := by
    refine ends_ite (fun _ ↦ ?_) fun _ ↦ Prog.ends_pure ⟨host, rfl⟩
    refine (malloc_alone _).bind ?_
    rintro _ _ ⟨host', rfl⟩
    exact Prog.ends_pure ⟨host', Backing.opened_withHost host'⟩
  refine hcreate.bind ?_
  rintro status _ ⟨host, rfl⟩
  refine ends_ite (fun _ ↦ ?_) fun _ ↦ ?_
  · exact (hrelease host).bind fun _ _ h ↦ Prog.ends_pure fun _ ↦ h
  refine (withLock_idle (R := fun r ↦ r.1 = .ok)
    (E := fun r ↦ r.1 ≠ .ok ∧ r.2.2 = [⟨s.nextBacking, 0⟩]) ⟨Status.noConfusion, rfl⟩
    fun hfree s1 ↦ ?_).bind ?_
  · rw [Backing.opened_space, Sys.withHost]
    rw [Backing.opened_held] at hfree
    have hok : SpaceOk μ s i (s.space i) := hinv.locks (.space i) (Sys.space_mem_locks.2 hi) hfree
    exact mmapLocked_idle hok.snapshot args size maximum s1
  · rintro ⟨status, address, removed⟩ _ (hok | ⟨⟨hbad, hremoved⟩, host', rfl⟩)
    · have hreturns : Returns (do
          Binding.listDestroy removed
          pure (status, address)) fun r ↦ r.1 = .ok := .seq fun _ ↦ hok
      exact fun _ _ hrun hbad ↦ absurd (hreturns.result hrun) hbad
    · dsimp only at hremoved ⊢
      rw [hremoved, Backing.opened_withHost]
      refine ((hrelease host').bind fun _ _ h ↦ ?_).bind fun _ _ h ↦ Prog.ends_pure fun _ ↦ h
      exact Prog.ends_pure h

theorem rightsOf_alone (note : Option NoteId) (s : Sys) :
    Ends (rightsOf note) s fun _ s' ↦ s' = s := by
  cases note with
  | none => exact Prog.ends_pure rfl
  | some n => exact ends_exec rfl (Prog.ends_pure rfl)

theorem mmap_checked {Q : Status × ℕ → Sys → Prop} {args : MmapArgs}
    (hbad : Q (.invalidArgument, addressAuto) s)
    (hchecked : ∀ maximum size, MaximumOk args maximum →
      mappingAlignLength args.length = some size → Ends (mmapChecked i args size maximum) s Q) :
    Ends (mmap i args) s Q := by
  refine ends_ite (fun _ ↦ Prog.ends_pure hbad) fun _ ↦ ?_
  refine (rightsOf_alone args.note s).bind ?_
  rintro rights _ rfl
  dsimp only
  generalize hmaximum : (if args.maximumProtection = .none then
    mappingDefaultMaximumProtection args rights else args.maximumProtection) = maximum
  refine ends_ite (fun _ ↦ Prog.ends_pure hbad) fun hvalid ↦ ?_
  split
  · exact Prog.ends_pure hbad
  next size hsize =>
  refine hchecked maximum size ⟨?_, fun hgiven ↦ ?_⟩ hsize
  · rw [not_or, Bool.not_eq_false, Bool.not_eq_false] at hvalid
    exact hvalid.2
  · rw [← hmaximum, if_neg hgiven]

theorem mmap_alone (hprompt : μ.prompt = false) (hinv : Inv μ ⟨s, 0, o⟩) (hi : i < s.nextSpace)
    (args : MmapArgs) (hnote : Backing.NoteExists args.note s) :
    Ends (mmap i args) s fun r ↦ AllOrNothing μ i s o r.1 fun c' ↦ ∃ maximum size,
      MaximumOk args maximum ∧ mappingAlignLength args.length = some size ∧
        NewlyMapped args maximum r.2 size s.nextBacking (s.space i) c' := by
  refine mmap_checked (.nothing hinv (by decide)) fun maximum size hmaximum hsize ↦ ?_
  refine (mmapChecked_alone hprompt hinv hi hnote maximum size).mono ?_
  rintro r s' ⟨hinv', honly, hcases⟩
  exact ⟨hinv', honly, hcases.imp_left fun h ↦ ⟨h.1, maximum, size, hmaximum, hsize, h.2⟩⟩

theorem mmap_failed (hinv : Inv μ ⟨s, 0, o⟩) (hi : i < s.nextSpace) (args : MmapArgs)
    (hheld : Backing.NoteHeld args.note s) :
    Ends (mmap i args) s fun r s' ↦ r.1 ≠ .ok → s.Restored s' :=
  mmap_checked (fun _ ↦ s.restored_withHost s.store.host) fun maximum size _ _ ↦
    mmapChecked_failed hinv hi hheld size maximum

theorem mmap_backing (i : SpaceId) (args : MmapArgs) (s : Sys) :
    Ends (mmap i args) s fun r s' ↦ r.1 = .ok →
      s'.backingInfo s.nextBacking = ⟨Backing.kindOf args.flags args.note, args.note⟩ := by
  refine mmap_checked nofun fun maximum size _ _ ↦ ?_
  refine (Backing.create_alone args.flags).bind ?_
  rintro ⟨status, b⟩ _ (⟨hbad, host, rfl⟩ | ⟨heq, host, rfl⟩)
  · dsimp only at hbad ⊢
    rw [if_pos hbad]
    exact Prog.ends_pure fun hok ↦ absurd hok hbad
  cases heq
  refine (ends_backingInfo _ _).mono fun r s' h _ ↦ ?_
  rw [h.2 s.nextBacking (Nat.lt_succ_self _)]
  exact Function.update_self ..

end Space

/-! ## Calls in reachable states -/

namespace Pool

variable {p : Pool} {i : SpaceId}

/-- `minimm_mmap` adds one mapping of a new backing, in the place of what was there only with
`MAP_FIXED`, or it restores the system: a call that fails changes no space, no TLB, no break and no
count. -/
theorem mmap_maps (h : Reachable false p) (hi : i < p.sys.nextSpace) (args : MmapArgs)
    (hnote : Backing.NoteExists args.note p.sys) :
    Ends (Space.mmap i args) p.sys fun r s' ↦
      (r.1 = .ok → (∃ maximum size, Space.MaximumOk args maximum ∧
          Space.mappingAlignLength args.length = some size ∧
          Space.NewlyMapped args maximum r.2 size p.sys.nextBacking (p.sys.space i)
            (s'.space i)) ∧
        s'.backingInfo p.sys.nextBacking = ⟨Backing.kindOf args.flags args.note, args.note⟩ ∧
        ∀ j, j ≠ i → s'.space j = p.sys.space j) ∧
      (r.1 ≠ .ok → p.sys.Untouched s' ∧
        (Backing.NoteHeld args.note p.sys → p.sys.Restored s')) := by
  obtain ⟨o, hinv⟩ := h.inv true
  intro r s' hrun
  have h := Space.mmap_alone rfl hinv hi args hnote r s' hrun
  refine ⟨fun hok ↦ ⟨(h.succeeded hok).1, ?_, (h.succeeded hok).2⟩,
    fun hbad ↦ ⟨h.untouched hinv hbad, fun hheld ↦ ?_⟩⟩
  · exact Space.mmap_backing i args p.sys r s' hrun hok
  · exact Space.mmap_failed hinv hi args hheld r s' hrun hbad

/-- A page in the place of another one. -/
def overOnePage : MmapArgs :=
  { onePage with
    addressHint := 0x100000
    flags := { «private» := true, anonymous := true, fixed := true, populate := true } }

set_option maxRecDepth 100000 in
theorem written_mapping : (written 40).any (fun p ↦
    answers (Space.mmap 0 overOnePage) Prod.fst .ok p &&
      answers (Space.munmap 0 0x100000 1) id .ok p) = true := by
  decide +kernel

theorem mmap_maps_over : ∃ p s' address maximum size, Reachable false p ∧
    (Space.mmap 0 overOnePage).run p.sys = .done (.ok, address) s' ∧
    Space.NewlyMapped overOnePage maximum address size p.sys.nextBacking (p.sys.space 0)
      (s'.space 0) ∧
    s'.backingInfo p.sys.nextBacking = ⟨.anonPrivate, none⟩ := by
  obtain ⟨p, hp, htest⟩ := (Option.any_eq_true _ _).1 written_mapping
  rw [Bool.and_eq_true] at htest
  obtain ⟨hi, ⟨_, address⟩, s', hrun, rfl⟩ := answers_run htest.1
  have hreach := reachable_written hp
  have hnote : Backing.NoteExists overOnePage.note p.sys := by rintro _ ⟨⟩
  obtain ⟨⟨maximum, size, -, -, hmapped⟩, hinfo, -⟩ :=
    (mmap_maps hreach hi _ hnote _ s' hrun).1 rfl
  exact ⟨p, s', address, maximum, size, hreach, hrun, hmapped, hinfo⟩

/-- `minimm_munmap` cuts the range out of the mappings and the entries; `minimm_mprotect` gives the
range, if all of it allows that, another protection. Either call leaves the spaces and the counts of
the frames untouched when it fails. -/
theorem munmap_mprotect_range (h : Reachable false p) (hi : i < p.sys.nextSpace)
    (address length : ℕ) (protection : Prot) :
    Ends (Space.munmap i address length) p.sys (fun status s' ↦
      (status = .ok → (∃ size, Space.mappingAlignLength length = some size ∧
          Space.Cut address size (p.sys.space i) (s'.space i)) ∧
        ∀ j, j ≠ i → s'.space j = p.sys.space j) ∧
      (status ≠ .ok → p.sys.Untouched s')) ∧
    Ends (Space.mprotect i address length protection) p.sys (fun status s' ↦
      (status = .ok →
        (∃ size, (length = 0 ∧ size = 0 ∨ Space.mappingAlignLength length = some size) ∧
          Space.Reguarded address size protection (p.sys.space i) (s'.space i)) ∧
        ∀ j, j ≠ i → s'.space j = p.sys.space j) ∧
      (status ≠ .ok → p.sys.Untouched s')) := by
  obtain ⟨o, hinv⟩ := h.inv true
  exact ⟨(Space.munmap_alone rfl hinv hi address length).mono fun _ _ h ↦
      ⟨h.succeeded, h.untouched hinv⟩,
    (Space.mprotect_alone rfl hinv hi address length protection).mono fun _ _ h ↦
      ⟨h.succeeded, h.untouched hinv⟩⟩

theorem munmap_mprotect_range_written : ∃ p s' size, Reachable false p ∧
    (Space.munmap 0 0x100000 1).run p.sys = .done .ok s' ∧
    Space.Cut 0x100000 size (p.sys.space 0) (s'.space 0) := by
  obtain ⟨p, hp, htest⟩ := (Option.any_eq_true _ _).1 written_mapping
  rw [Bool.and_eq_true] at htest
  obtain ⟨hi, _, s', hrun, rfl⟩ := answers_run htest.2
  have hreach := reachable_written hp
  obtain ⟨⟨size, -, hcut⟩, -⟩ := ((munmap_mprotect_range hreach hi _ _ .none).1 _ s' hrun).1 rfl
  exact ⟨p, s', size, hreach, hrun, hcut⟩

end Pool

end MiniMM
