import MiniMM.Calls.Alone

/-!
# Forks

What `minimm_space_fork` leaves of the parent and gives to the child, and that it leaves everything
when it fails.
-/

namespace MiniMM

open Handle Code PageTable

/-- The spaces outside of `t`, their translations and their locks are as they were. -/
structure Sys.Besides (t : Set SpaceId) (s s' : Sys) : Prop where
  space : ∀ j, j ∉ t → s'.space j = s.space j
  tlb : ∀ j, j ∉ t → s.held (.space j) = false → s'.tlb j = s.tlb j
  held : ∀ j, j ∉ t → s'.held (.space j) = s.held (.space j)

namespace Sys

variable {t : Set SpaceId} {s s' s'' : Sys} {i : SpaceId}

theorem Besides.trans (h : s.Besides t s') (h' : s'.Besides t s'') : s.Besides t s'' where
  space j hj := (h'.space j hj).trans (h.space j hj)
  tlb j hj hfree := (h'.tlb j hj ((h.held j hj).trans hfree)).trans (h.tlb j hj hfree)
  held j hj := (h'.held j hj).trans (h.held j hj)

theorem Besides.mono {u : Set SpaceId} (h : s.Besides t s') (hle : t ⊆ u) : s.Besides u s' where
  space j hj := h.space j fun hmem ↦ hj (hle hmem)
  tlb j hj := h.tlb j fun hmem ↦ hj (hle hmem)
  held j hj := h.held j fun hmem ↦ hj (hle hmem)

theorem OnlySpace.besides (h : s.OnlySpace i s') : s.Besides {i} s' :=
  ⟨h.other, h.tlb, fun j _ ↦ h.held j⟩

theorem Stood.besides (h : s.Stood s')
    (htlb : ∀ j, s.held (.space j) = false → s'.tlb j = s.tlb j) : s.Besides t s' :=
  ⟨fun j _ ↦ congrFun h.space j, fun j _ ↦ htlb j, fun j _ ↦ h.held j⟩

end Sys

namespace Space

variable {μ : Mode} {i child : SpaceId} {s s' : Sys} {F o : Multiset Handle}

/-! ## The lock of the break -/

theorem lockBrk_alone (hprompt : μ.prompt = false) (hinv : Inv μ ⟨s, F, o⟩) (hi : i < s.nextSpace) :
    Ends (.step (.lockBrk i)) s fun b s' ↦ b = s.brk i ∧ Inv μ ⟨s', {lock (.brk i)} + F, o⟩ ∧
      Keeps F s s' ∧ s.Besides ∅ s' ∧ s'.nextSpace = s.nextSpace ∧ s'.brk = s.brk ∧
      s'.store = s.store := by
  intro b s' hrun
  obtain ⟨hinv', hkeeps, -⟩ := lockBrk_spec.ends (F := F) hprompt zero_le (by rwa [zero_add]) hi b
    s' hrun
  obtain ⟨_, _, hexec, hpure⟩ := Prog.run_op_done _ hrun
  cases hpure
  obtain ⟨-, rfl, rfl⟩ := Sys.lock_ok hexec
  refine ⟨rfl, hinv', hkeeps, ⟨fun _ _ ↦ rfl, fun _ _ _ ↦ rfl, fun j _ ↦ ?_⟩, rfl, rfl, rfl⟩
  simp

theorem unlockBrk_alone {b : Brk} (hprompt : μ.prompt = false)
    (hinv : Inv μ ⟨s, {lock (.brk i)} + F, o⟩) :
    Ends (.step (.unlockBrk i b)) s fun _ s' ↦ Inv μ ⟨s', F, o⟩ ∧ Keeps F s s' ∧ s.Besides ∅ s' ∧
      s'.nextSpace = s.nextSpace ∧ s'.brk = Function.update s.brk i b ∧ s'.store = s.store := by
  intro u s' hrun
  obtain ⟨hinv', hkeeps, -⟩ := (unlockBrk_spec b).ends (F := F) hprompt zero_le hinv
    trivial u s' hrun
  rw [zero_add] at hinv'
  obtain ⟨_, _, hexec, hpure⟩ := Prog.run_op_done _ hrun
  cases hpure
  cases hexec
  refine ⟨hinv', hkeeps, ⟨fun _ _ ↦ rfl, fun _ _ _ ↦ rfl, fun j _ ↦ ?_⟩, rfl, rfl, rfl⟩
  simp

/-! ## Making and dropping a space -/

theorem allocateAll_host (n : ℕ) (s : Sys) : Ends (allocateAll n) s fun _ s' ↦
    ∃ host, s' = { s with store := { s.store with host := host } } := by
  induction n generalizing s with
  | zero => exact Prog.ends_pure ⟨s.store.host, rfl⟩
  | succ n ih =>
    refine ends_exec rfl ?_
    split
    · refine (ih _).mono ?_
      rintro _ s' ⟨host, rfl⟩
      exact ⟨host, rfl⟩
    · exact Prog.ends_pure ⟨_, rfl⟩

/-- A new space, whose locks are held. -/
structure Made (s s' : Sys) : Prop where
  besides : s.Besides {s.nextSpace} s'
  nextSpace : s'.nextSpace = s.nextSpace + 1
  brk : s'.brk = Function.update s.brk s.nextSpace ⟨MiniMM.brkBase, MiniMM.brkBase⟩

theorem newSpace_made {c : Space} (hexec : s.exec
    (.newSpace c ⟨MiniMM.brkBase, MiniMM.brkBase⟩) = .ok child s') : Made s s' := by
  cases hexec
  refine ⟨⟨fun j hj ↦ Function.update_of_ne hj _ _, fun j hj _ ↦ Function.update_of_ne hj _ _,
    fun j hj ↦ ?_⟩, rfl, rfl⟩
  dsimp only
  rw [Function.update_of_ne (by simp), Function.update_of_ne fun h ↦ hj (LockId.space.inj h)]

/-- What `minimm_space_create` leaves while the locks of the new space are held. -/
theorem createLocked_made (s : Sys) : Ends createLocked s fun r s' ↦
    r.1 ≠ .ok ∧ r.2 = none ∧ (∃ host, s' = { s with store := { s.store with host := host } }) ∨
    r = (.ok, some s.nextSpace) ∧ Made s s' := by
  refine (allocateAll_host 3 s).bind ?_
  rintro _ s1 ⟨host1, rfl⟩
  refine ends_ite (fun _ ↦ Prog.ends_pure (.inl ⟨by decide, rfl, host1, rfl⟩)) fun _ ↦ ?_
  refine ends_exec rfl ?_
  refine ends_ite (fun _ ↦ Prog.ends_pure (.inl ⟨by decide, rfl, host1, rfl⟩)) fun _ ↦ ?_
  refine (allocateAll_host 4 _).bind ?_
  rintro _ s2 ⟨host2, rfl⟩
  refine ends_ite (fun _ ↦ Prog.ends_pure (.inl ⟨by decide, rfl, host2, rfl⟩)) fun _ ↦ ?_
  refine ends_exec rfl (Prog.ends_pure (.inr ⟨rfl, ?_⟩))
  obtain ⟨hbesides, hnext, hbrk⟩ := newSpace_made (c := new)
    (s := { s with store := { s.store with host := host2 } }) rfl
  exact ⟨⟨hbesides.space, hbesides.tlb, hbesides.held⟩, hnext, hbrk⟩

theorem unlocked_besides (c : Space) (s : Sys) : s.Besides {child} (unlocked child c s) where
  space _ hj := Function.update_of_ne hj _ _
  tlb _ _ _ := rfl
  held _ hj := Function.update_of_ne (fun h ↦ hj (LockId.space.inj h)) _ _

theorem destroyLocked_alone {c : Space} (hprompt : μ.prompt = false)
    (hinv : Inv μ ⟨s, {lock (.space child)} + c.sites + F, o⟩) (hwf : c.Wf) :
    Ends (destroyLocked child c) s fun _ s' ↦ Inv μ ⟨s', F, o⟩ ∧ s.Besides {child} s' ∧
      s'.space child = c.closed ∧ s'.nextSpace = s.nextSpace ∧ s'.brk = s.brk := by
  obtain ⟨m, hm⟩ := hwf.table
  rw [add_assoc] at hinv
  refine (Tlb.destroy_spec.still_ends Tlb.silent_destroy.still hprompt zero_le hinv trivial).bind ?_
  rintro _ s1 ⟨hinv1, -, htlb, hstood1, htlb1⟩
  have hentries := hm.sites_entries
  rw [PageTable.destroy]
  generalize c.pageTable.entries = entries at hentries ⊢
  have hinv1' : Inv μ ⟨s1, PageTable.entriesSites entries +
      (bindingSites c.bindings + ({lock (.space child)} + F)), o⟩ := by
    rw [sites_eq, hentries] at hinv1
    convert hinv1 using 2
    ac_rfl
  refine ((PageTable.destroyEntries_spec entries).still_ends
    (PageTable.silent_destroyEntries entries).still hprompt zero_le hinv1' trivial).bind ?_
  rintro _ s2 ⟨hinv2, hkeeps2, -, hstood2, htlb2⟩
  rw [zero_add] at hinv2
  refine ((Binding.listDestroy_spec c.bindings).still_ends (Binding.still_listDestroy _) hprompt
    zero_le hinv2 trivial).bind ?_
  rintro _ s3 ⟨hinv3, hkeeps3, -, hstood3, htlb3⟩
  have hempty : Sound μ child ∅ c.closed s3 :=
    sound_of_empty (hwf.closed) rfl rfl ((htlb.keeps hkeeps2 (by simp)).keeps hkeeps3 (by simp))
  refine (unlock_alone hprompt (F := F)
    (by rwa [sites_closed, add_zero, ← zero_add (_ + F)]) hempty).mono ?_
  rintro _ s4 ⟨hinv4, -, rfl⟩
  refine ⟨hinv4, ((((hstood1.besides htlb1).trans (hstood2.besides htlb2)).trans
    (hstood3.besides htlb3)).trans (unlocked_besides c.closed s3)), Function.update_self .., ?_, ?_⟩
  · exact hstood3.nextSpace.trans (hstood2.nextSpace.trans hstood1.nextSpace)
  · exact hstood3.brk.trans (hstood2.brk.trans hstood1.brk)

/-! ## The call -/

theorem still_forkLocked {c : Space} (h : c.vmaSnapshot.Good) : Still (forkLocked i c) := by
  refine still_bind (VmaSnapshot.clone_built h).allocates.quiet.silent.still ?_
  rintro ⟨status, _ | snapshot⟩
  · trivial
  refine still_bind (Binding.still_listCloneFrom c.bindings []) fun r ↦ still_ite trivial ?_
  generalize htables : forkTables i c = tables
  exact still_bind (silent_forkTables htables).still fun r ↦ trivial

/-- The spaces after a successful fork. -/
structure ForkDone (i : SpaceId) (s s' : Sys) : Prop where
  nextSpace : s'.nextSpace = s.nextSpace + 1
  wf : (s.space i).Wf ∧ (s'.space s.nextSpace).Wf ∧ (s'.space i).Wf
  forked : Forked (s.space i) (s'.space s.nextSpace) (s'.space i)
  besides : s.Besides {i, s.nextSpace} s'
  brk : s'.brk = Function.update s.brk s.nextSpace (s.brk i)

/-- The spaces after a fork that has failed: a child that was made is closed. -/
structure ForkFailed (s s' : Sys) : Prop where
  besides : s.Besides {s.nextSpace} s'
  nextSpace : s'.nextSpace = s.nextSpace ∨
    s'.nextSpace = s.nextSpace + 1 ∧ (s'.space s.nextSpace).pageTable = .empty
  brk : ∀ j, j ≠ s.nextSpace → s'.brk j = s.brk j

section Ending

variable {contents : Space} {status : Status} {b : Brk} (hprompt : μ.prompt = false)
  (hinv : Inv μ ⟨s, {lock (.brk child)} + ({lock (.space child)} + contents.sites), o⟩)
  (hchild : ChildOk μ contents s)

include hprompt hinv hchild

theorem forkCommit_alone (htlb : Tlb.All (Agrees new.pageTable) child s) :
    Ends (do
      .step (.unlockSpace child contents)
      .step (.unlockBrk child b)
      pure (.ok, some child)) s fun r s' ↦ r = (Status.ok, some child) ∧ Inv μ ⟨s', 0, o⟩ ∧
      s.Besides {child} s' ∧ s'.space child = contents ∧ s'.nextSpace = s.nextSpace ∧
      s'.brk = Function.update s.brk child b := by
  refine (unlock_alone (F := {lock (.brk child)}) hprompt (by rwa [add_comm])
    (hchild.sound htlb)).bind ?_
  rintro _ s1 ⟨hinv1, -, hs1⟩
  have hbesides1 : s.Besides {child} s1 := hs1 ▸ unlocked_besides contents s
  refine (unlockBrk_alone (F := 0) hprompt (by rwa [add_zero])).bind ?_
  rintro _ s2 ⟨hinv2, -, hbesides2, hnext2, hbrk2, -⟩
  refine Prog.ends_pure
    ⟨rfl, hinv2, hbesides1.trans (hbesides2.mono (Set.empty_subset _)), ?_, ?_, ?_⟩
  · rw [hbesides2.space child (by simp), hs1]
    exact Function.update_self ..
  · rw [hnext2, hs1]
  · rw [hbrk2, hs1]

theorem forkAbandon_alone :
    Ends (do
      Binding.listDestroy contents.bindings
      .step (.unlockBrk child b)
      destroyLocked child contents.unbound
      pure (status, none)) s fun (r : Status × Option SpaceId) s' ↦ r = (status, none) ∧
      Inv μ ⟨s', 0, o⟩ ∧ s.Besides {child} s' ∧ (s'.space child).pageTable = .empty ∧
      s'.nextSpace = s.nextSpace ∧ s'.brk = Function.update s.brk child b := by
  have hinv0 : Inv μ ⟨s, bindingSites contents.bindings +
      ({lock (.brk child)} + ({lock (.space child)} + contents.unbound.sites)), o⟩ := by
    rw [sites_unbound] at hinv
    convert hinv using 2
    ac_rfl
  refine ((Binding.listDestroy_spec contents.bindings).still_ends (Binding.still_listDestroy _)
    hprompt zero_le hinv0 trivial).bind ?_
  rintro _ s1 ⟨hinv1, -, -, hstood1, htlb1⟩
  refine (unlockBrk_alone hprompt (by rwa [zero_add] at hinv1)).bind ?_
  rintro _ s2 ⟨hinv2, -, hbesides2, hnext2, hbrk2, -⟩
  refine (destroyLocked_alone (F := 0) hprompt (by rwa [add_zero]) hchild.wf.unbound).bind ?_
  rintro _ s3 ⟨hinv3, hbesides3, hclosed, hnext3, hbrk3⟩
  refine Prog.ends_pure ⟨rfl, hinv3, ((hstood1.besides htlb1).trans
    (hbesides2.mono (Set.empty_subset _))).trans hbesides3, ?_,
    hnext3.trans (hnext2.trans hstood1.nextSpace), ?_⟩
  · rw [hclosed]
    rfl
  · rw [hbrk3, hbrk2, hstood1.brk]

end Ending

theorem forkFrom_alone {s1 : Sys} (hprompt : μ.prompt = false) (hi : i < s.nextSpace)
    (hinv : Inv μ ⟨s1, {lock (.space s.nextSpace)} + {lock (.brk s.nextSpace)}, o⟩)
    (hsound : Sound μ s.nextSpace ∅ new s1) (hmade : Made s s1) :
    Ends (do
      let brk ← .step (.lockBrk i)
      let (status, contents) ← withLock i (.busy, .new) (forkLocked i)
      .step (.unlockBrk i brk)
      if status ≠ .ok then do
        Binding.listDestroy contents.bindings
        .step (.unlockBrk s.nextSpace ⟨MiniMM.brkBase, MiniMM.brkBase⟩)
        destroyLocked s.nextSpace contents.unbound
        pure (status, none)
      else do
        .step (.unlockSpace s.nextSpace contents)
        .step (.unlockBrk s.nextSpace brk)
        pure (.ok, some s.nextSpace)) s1 fun r s' ↦ Inv μ ⟨s', 0, o⟩ ∧
      (r = (.ok, some s.nextSpace) ∧ ForkDone i s s' ∨ r.1 ≠ .ok ∧ r.2 = none ∧
        ForkFailed s s') := by
  have hne : i ≠ s.nextSpace := hi.ne
  have hspace : s1.space i = s.space i := hmade.besides.space i hne
  have hi1 : i < s1.nextSpace := hmade.nextSpace ▸ hi.trans (Nat.lt_succ_self _)
  refine (lockBrk_alone hprompt hinv hi1).bind ?_
  rintro _ s2 ⟨rfl, hinv2, hkeeps2, hbesides2, hnext2, hbrk2, -⟩
  refine (withLock_alone (s := s2) (i := i)
    (G := fun r : Status × Space ↦ r.2.sites) (P := fun s ↦ s.tlb i = s2.tlb i)
    (R := fun r s ↦ ChildOk μ r.1.2 s ∧ (r.1.1 = .ok ∧ Forked (s2.space i) r.1.2 r.2 ∨
      r.1.1 ≠ .ok ∧ r.2 = s2.space i ∧ s.tlb i = s2.tlb i))
    hprompt (K := 0) zero_le (H := 0) (by rwa [zero_add]) (hnext2 ▸ hi1) sites_new rfl
    (fun hgood ↦ still_forkLocked hgood) fun _ _ ↦ ?_).bind ?_
  · rw [add_zero]
    exact forkLocked_spec
  rintro ⟨status, contents⟩ s3 ⟨hinv3, honly, hkeeps3, hcases⟩
  have hchild : ChildOk μ contents s3 ∧ (status = .ok ∧ ((s.space i).Wf ∧ (s3.space i).Wf) ∧
      Forked (s.space i) contents (s3.space i) ∨ status ≠ .ok ∧ s3.space i = s2.space i ∧
        s3.tlb i = s2.tlb i) := by
    rw [← hspace, ← hbesides2.space i (by simp)]
    rcases hcases with ⟨-, heq, hsame, htlb⟩ | ⟨hwf, s4, ⟨hchild, hforked⟩, hkeeps4, hs3⟩
    · cases heq
      exact ⟨childOk_new, .inr ⟨by decide, hsame, htlb⟩⟩
    · refine ⟨hchild.keeps le_self_add hkeeps4, hforked.imp (fun h ↦ ⟨h.1, hwf, h.2⟩) fun h ↦
        ⟨h.1, h.2.1, ?_⟩⟩
      rw [hs3]
      exact h.2.2
  obtain ⟨hchild, hcases⟩ := hchild
  have hinv3' : Inv μ ⟨s3, {lock (.brk i)} + ({lock (.brk s.nextSpace)} +
      ({lock (.space s.nextSpace)} + contents.sites)), o⟩ := by
    convert hinv3 using 2
    ac_rfl
  refine (unlockBrk_alone hprompt hinv3').bind ?_
  rintro _ s4 ⟨hinv4, hkeeps4, hbesides4, hnext4, hbrk4, -⟩
  have hchild4 := hchild.keeps ((le_add_left le_rfl).trans (le_add_left le_rfl)) hkeeps4
  have hnext : s4.nextSpace = s.nextSpace + 1 := by
    rw [hnext4, honly.nextSpace, hnext2, hmade.nextSpace]
  have hbrk : s4.brk = Function.update s.brk s.nextSpace ⟨MiniMM.brkBase, MiniMM.brkBase⟩ := by
    rw [hbrk4, honly.brk, hbrk2, Function.update_eq_self, hmade.brk]
  by_cases hstatus : status ≠ .ok
  · rw [if_pos hstatus]
    obtain ⟨hsame, htlb⟩ := (hcases.resolve_left fun h ↦ hstatus h.1).2
    have hbesides3 : s2.Besides ∅ s3 := by
      refine ⟨fun j _ ↦ ?_, fun j _ hfree ↦ ?_, fun j _ ↦ honly.held j⟩
      · by_cases hj : j = i
        · rw [hj, hsame]
        · exact honly.other j hj
      · by_cases hj : j = i
        · rw [hj, htlb]
        · exact honly.tlb j hj hfree
    refine (forkAbandon_alone hprompt hinv4 hchild4).mono ?_
    rintro _ s' ⟨rfl, hinv', hbesides', hempty, hnext', hbrk'⟩
    refine ⟨hinv', .inr ⟨hstatus, rfl, ?_, .inr ⟨hnext'.trans hnext, hempty⟩, fun j hj ↦ ?_⟩⟩
    · exact hmade.besides.trans ((((hbesides2.trans hbesides3).trans hbesides4).mono
        (Set.empty_subset _)).trans hbesides')
    · rw [hbrk', hbrk, Function.update_of_ne hj, Function.update_of_ne hj]
  · rw [if_neg hstatus]
    obtain ⟨-, ⟨hwf, hwf'⟩, hforked⟩ := hcases.resolve_right fun h ↦ hstatus h.1
    have htlb := ((hsound.tlb.keeps hkeeps2 (by simp)).keeps hkeeps3 (by simp)).keeps
      hkeeps4 (by simp)
    refine (forkCommit_alone hprompt hinv4 hchild4 htlb).mono ?_
    rintro _ s' ⟨rfl, hinv', hbesides', hcontents, hnext', hbrk'⟩
    have hparent : s'.space i = s3.space i := by
      rw [hbesides'.space i hne, hbesides4.space i (by simp)]
    refine ⟨hinv', .inl ⟨rfl, hnext'.trans hnext, ?_, ?_, ?_, ?_⟩⟩
    · rw [hparent, hcontents]
      exact ⟨hwf, hchild.wf, hwf'⟩
    · rw [hparent, hcontents]
      exact hforked
    · have hleft : ({i} : Set SpaceId) ⊆ {i, s.nextSpace} := by simp
      have hright : ({s.nextSpace} : Set SpaceId) ⊆ {i, s.nextSpace} := by simp
      have hempty : (∅ : Set SpaceId) ⊆ {i, s.nextSpace} := Set.empty_subset _
      exact (hmade.besides.mono hright).trans ((hbesides2.mono hempty).trans
        ((honly.besides.mono hleft).trans ((hbesides4.mono hempty).trans (hbesides'.mono hright))))
    · rw [hbrk', hbrk, Function.update_idem, hmade.brk, Function.update_of_ne hne]

theorem fork_alone (hprompt : μ.prompt = false) (hinv : Inv μ ⟨s, 0, o⟩) (hi : i < s.nextSpace) :
    Ends (fork i) s fun r s' ↦ Inv μ ⟨s', 0, o⟩ ∧
      (r = (.ok, some s.nextSpace) ∧ ForkDone i s s' ∨ r.1 ≠ .ok ∧ r.2 = none ∧
        ForkFailed s s') := by
  have hcreate : Ends createLocked s _ := fun r s1 hrun ↦ And.intro
    (createLocked_spec.ends (F := 0) hprompt zero_le (by rwa [zero_add]) trivial r s1 hrun)
    (createLocked_made s r s1 hrun)
  refine hcreate.bind ?_
  rintro ⟨status, made⟩ s1 ⟨⟨hinv1, -, hsound1⟩, ⟨hstatus, rfl, host, rfl⟩ | ⟨hok, hmade⟩⟩
  · exact Prog.ends_pure ⟨hinv1, .inr ⟨hstatus, rfl, ⟨fun _ _ ↦ rfl, fun _ _ _ ↦ rfl,
      fun _ _ ↦ rfl⟩, .inl rfl, fun _ _ ↦ rfl⟩⟩
  · cases hok
    rw [add_zero] at hinv1
    exact forkFrom_alone hprompt hi hinv1 (hsound1 _ rfl) hmade

/-! ## Parent and child -/

/-- The entries of child and parent for an entry that the parent had in the mapping `v`. -/
structure EntryForked (v : Vma) (pte child parent : Pte) : Prop where
  frame : child.frame = pte.frame ∧ parent.frame = pte.frame
  fresh : child.flags.locked = false ∧ child.flags.accessed = false
  kept : parent.flags.locked = pte.flags.locked ∧ parent.flags.accessed = pte.flags.accessed ∧
    parent.flags.dirty = pte.flags.dirty
  cow : child.flags.cow = (!v.shared && v.maxProt.writable) ∧
    parent.flags.cow = (!v.shared && v.maxProt.writable)
  ok : PteOk v child ∧ PteOk v parent

theorem entryForked {v : Vma} {pte : Pte} (h : PteOk v pte) :
    EntryForked v pte (childPte v pte) (parentPte v pte) := by
  refine ⟨⟨rfl, rfl⟩, ?_, ?_, ?_, childPte_ok v pte, parentPte_ok h⟩
  all_goals
    simp only [childPte, mappedPte, forkFlags, parentPte, revised, forkCommitFlags, PteFlags.update]
    by_cases hshared : v.shared = true
    · simp [hshared]
    · by_cases hwritable : v.maxProt.writable = true
      · simp [hshared, hwritable]
      · simp [hshared, hwritable]

/-- The child has the mappings of the parent and an entry for each entry of the parent. -/
structure Twins (c child parent : Space) : Prop where
  ranges : child.vmaSnapshot.ranges = c.vmaSnapshot.ranges ∧ parent.vmaSnapshot = c.vmaSnapshot
  bindings : child.bindings = c.bindings ∧ parent.bindings = c.bindings
  cookie : child.nextMappingCookie = c.nextMappingCookie ∧
    parent.nextMappingCookie = c.nextMappingCookie
  absent : ∀ a, c.pteAt a = none → child.pteAt a = none ∧ parent.pteAt a = none
  entry : ∀ a pte, c.pteAt a = some pte → ∃ v, c.vmaSnapshot.lookup a = some v ∧
    ∃ u w, child.pteAt a = some u ∧ parent.pteAt a = some w ∧ EntryForked v pte u w

theorem Forked.twins {c child parent : Space} (h : Forked c child parent) (hc : c.Wf)
    (hchild : child.Wf) (hparent : parent.Wf) : Twins c child parent := by
  have hpte : ∀ {c : Space}, c.Wf → ∀ a, c.pteAt a = c.pageTable.pte (a / pageSize) :=
    fun hwf a ↦ by rw [pteAt, hwf.has.lookup]
  have hrest := h.rest
  refine ⟨⟨h.ranges, by rw [← hrest]; rfl⟩, ⟨h.bindings, by rw [← hrest]; rfl⟩,
    ⟨h.cookie, by rw [← hrest]; rfl⟩, fun a ha ↦ ?_, fun a pte ha ↦ ?_⟩
  · rw [hpte hc] at ha
    rw [hpte hchild, hpte hparent, h.childEntries, h.parentEntries]
    exact ⟨forkEntries_none ha, forkEntries_none ha⟩
  · rw [hpte hc] at ha
    obtain ⟨v, hv, hok, hentry⟩ := hc.forkEntries (f := childPte) ha
    obtain ⟨v', hv', -, hentry'⟩ := hc.forkEntries (f := parentPte) ha
    cases hv.symm.trans hv'
    rw [VmaSnapshot.lookup_page hc.snapshot] at hv
    refine ⟨v, hv, childPte v pte, parentPte v pte, ?_, ?_, entryForked hok⟩
    · rw [hpte hchild, h.childEntries, hentry]
    · rw [hpte hparent, h.parentEntries, hentry']

theorem ForkFailed.sameEntryCounts (h : ForkFailed s s') (hinv : Inv μ ⟨s, 0, o⟩)
    (hinv' : Inv μ ⟨s', 0, o⟩) : s.SameEntryCounts s' := by
  refine hinv.sameEntryCounts_of_sum hinv' fun x ↦ ?_
  have hold : (∑ j ∈ Finset.range s.nextSpace,
      if s'.held (.space j) then 0 else (s'.space j).pageTable.sites.count x) =
      ∑ j ∈ Finset.range s.nextSpace,
        if s.held (.space j) then 0 else (s.space j).pageTable.sites.count x := by
    refine Finset.sum_congr rfl fun j hj ↦ ?_
    have hne : j ∉ ({s.nextSpace} : Set SpaceId) := (Finset.mem_range.1 hj).ne
    rw [h.besides.held j hne, h.besides.space j hne]
  rcases h.nextSpace with hnext | ⟨hnext, hempty⟩
  · rw [hnext, hold]
  · rw [hnext, Finset.sum_range_succ, hold, hempty, PageTable.sites_empty]
    simp

end Space

namespace Pool

variable {p : Pool} {i : SpaceId} {s' : Sys} {status : Status} {made : Option SpaceId}

/-- `minimm_space_fork` makes a child that shares the frames of its parent, copied on the next write
on either side, or it leaves the spaces, their breaks, the mapping and pin counts of the frames and
the translations of every space that no other call works on as they were. -/
theorem fork_allOrNothing (h : Reachable false p) (hi : i < p.sys.nextSpace)
    (hrun : (Space.fork i).run p.sys = .done (status, made) s') :
    (status = .ok → ∃ child, made = some child ∧ p.sys.nextSpace ≤ child ∧
      Space.Twins (p.sys.space i) (s'.space child) (s'.space i) ∧ s'.brk child = p.sys.brk i ∧
      ∀ j < p.sys.nextSpace, s'.brk j = p.sys.brk j ∧ (j ≠ i → s'.space j = p.sys.space j)) ∧
    (status ≠ .ok → made = none ∧
      (∀ j < p.sys.nextSpace, s'.space j = p.sys.space j ∧ s'.brk j = p.sys.brk j ∧
        (p.sys.held (.space j) = false → s'.tlb j = p.sys.tlb j)) ∧
      ∀ f, (s'.store.frame f).mappings = (p.sys.store.frame f).mappings ∧
        (s'.store.frame f).pinCount = (p.sys.store.frame f).pinCount) := by
  obtain ⟨o, hinv⟩ := h.inv true
  obtain ⟨hinv', ⟨heq, hdone⟩ | ⟨hbad, hnone, hfailed⟩⟩ := Space.fork_alone rfl hinv hi _ s' hrun
  · cases heq
    refine ⟨fun _ ↦ ⟨_, rfl, le_rfl, ?_, ?_, fun j hj ↦ ⟨?_, fun hne ↦ ?_⟩⟩, fun hbad ↦
      absurd rfl hbad⟩
    · exact hdone.forked.twins hdone.wf.1 hdone.wf.2.1 hdone.wf.2.2
    · rw [hdone.brk, Function.update_self]
    · rw [hdone.brk, Function.update_of_ne hj.ne]
    · exact hdone.besides.space j (by simp [hne, hj.ne])
  · refine ⟨fun hok ↦ absurd hok hbad, fun _ ↦ ⟨hnone, fun j hj ↦ ?_,
      hfailed.sameEntryCounts hinv hinv'⟩⟩
    have hne : j ∉ ({p.sys.nextSpace} : Set SpaceId) := hj.ne
    exact ⟨hfailed.besides.space j hne, hfailed.brk j hne, hfailed.besides.tlb j hne⟩

set_option maxRecDepth 100000 in
theorem written_fork : ((written 33).any (answers (Space.fork 0) Prod.fst .ok) &&
    (written 32).any (answers (Space.fork 0) Prod.fst .outOfMemory)) = true := by
  decide +kernel

/-- A fork, and one that runs out of memory at the last of its allocations. -/
theorem fork_allOrNothing_page : (∃ p s' child, Reachable false p ∧
      (Space.fork 0).run p.sys = .done (.ok, some child) s' ∧
      Space.Twins (p.sys.space 0) (s'.space child) (s'.space 0)) ∧
    ∃ p s', Reachable false p ∧ (Space.fork 0).run p.sys = .done (.outOfMemory, none) s' ∧
      s'.space 0 = p.sys.space 0 := by
  obtain ⟨hok, hbad⟩ := Bool.and_eq_true_iff.1 written_fork
  refine ⟨?_, ?_⟩
  · obtain ⟨p, hp, htest⟩ := (Option.any_eq_true _ _).1 hok
    obtain ⟨hi, ⟨_, made⟩, s', hrun, rfl⟩ := answers_run htest
    have hreach := reachable_written hp
    obtain ⟨child, rfl, -, htwins, -⟩ := (fork_allOrNothing hreach hi hrun).1 rfl
    exact ⟨p, s', child, hreach, hrun, htwins⟩
  · obtain ⟨p, hp, htest⟩ := (Option.any_eq_true _ _).1 hbad
    obtain ⟨hi, ⟨_, made⟩, s', hrun, rfl⟩ := answers_run htest
    have hreach := reachable_written hp
    obtain ⟨rfl, hsame, -⟩ := (fork_allOrNothing hreach hi hrun).2 (by decide)
    exact ⟨p, s', hreach, hrun, (hsame 0 hi).1⟩

end Pool

end MiniMM
