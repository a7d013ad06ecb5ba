import MiniMM.Spec.Tlb

/-!
# Specifications of locks and of what is read without one

Whoever takes a lock gets what it protects, in order, and has to leave it so.
-/

namespace MiniMM

open Handle

variable {μ : Mode} {K x : Multiset Handle} {s s' : Sys} {w : World} {i : SpaceId} {b : BackingId}
  {n : NoteId} {l : LineageId}

/-! ## What others do not change -/

theorem SpaceOk.keeps {c : Space} (h : SpaceOk μ s i c) (hk : Keeps x s s')
    (hl : lock (.space i) ∈ x) (hsites : c.pageTable.sites ≤ x)
    (hb : ∀ b ∈ c.bindings, b.backing < s.nextBacking) : SpaceOk μ s' i c := by
  refine h.congr (hk.tlb i hl) (fun b hmem ↦ hk.backingInfo _ (hb b hmem)) ?_
  intro p pte hp hlocked hr
  have hle := (Inv.pte_sites_le hp).trans hsites
  exact hk.resident _ (Multiset.mem_of_le hle (Inv.ref_mem_sites pte))
    (.inl (Multiset.mem_of_le hle (Inv.pin_mem_sites hlocked))) hr

theorem Inv.bound_lt (h : Inv μ w) {bindings : List Binding}
    (hle : bindingSites bindings ≤ w.mine) : ∀ b ∈ bindings, b.backing < w.sys.nextBacking := by
  intro b hb
  refine (h.backing_pos (Multiset.mem_of_le hle ?_)).2
  exact Multiset.mem_coe.2 (List.mem_map_of_mem hb)

theorem LineageOk.keeps {v : Lineage} (h : LineageOk s l v) (hk : Keeps x s s')
    (hl : lock (.lineage l) ∈ x) : LineageOk s' l v := by
  have hmember : ∀ n, n < s'.nextNote ∧ (s'.noteInfo n).lineage = l ↔
      n < s.nextNote ∧ (s.noteInfo n).lineage = l := by
    intro n
    constructor
    · rintro ⟨hlt, hline⟩
      have hold : n < s.nextNote := by
        by_contra hge
        exact hk.newNote n hlt (Nat.le_of_not_lt hge) (by rwa [hline])
      rw [hk.noteInfo n hold] at hline
      exact ⟨hold, hline⟩
    · rintro ⟨hlt, hline⟩
      exact ⟨hlt.trans_le hk.nextNote, by rw [hk.noteInfo n hlt, hline]⟩
  refine h.congr hmember fun n hn ↦ ?_
  obtain ⟨hlt, hline⟩ := (h.member n).1 hn
  exact (hk.noteSize n hlt (by rwa [hline])).1

theorem LineageOk.noteSize_keeps {v : Lineage} (h : LineageOk s l v) (hn : n ∈ v.members)
    (hk : Keeps x s s') (hl : lock (.lineage l) ∈ x) : s'.noteSize n = s.noteSize n := by
  obtain ⟨hlt, hline⟩ := (h.member n).1 hn
  exact (hk.noteSize n hlt (by rwa [hline])).1

/-- What never changes of a note. -/
structure NoteIs (n : NoteId) (info : NoteInfo) (s : Sys) : Prop where
  lt : n < s.nextNote
  eq : s.noteInfo n = info

theorem NoteIs.keeps {info : NoteInfo} (h : NoteIs n info s) (hk : Keeps x s s') :
    NoteIs n info s' :=
  ⟨h.lt.trans_le hk.nextNote, by rw [hk.noteInfo n h.lt, h.eq]⟩

theorem NoteIs.lineage_lt {info : NoteInfo} (h : NoteIs n info w.sys) (hinv : Inv μ w) :
    info.lineage < w.sys.nextLineage := by
  rw [← h.eq]
  exact hinv.fresh.noteLineage n h.lt

/-- What never changes of a backing. -/
structure BackingIs (b : BackingId) (info : BackingInfo) (s : Sys) : Prop where
  lt : b < s.nextBacking
  eq : s.backingInfo b = info

theorem BackingIs.keeps {info : BackingInfo} (h : BackingIs b info s) (hk : Keeps x s s') :
    BackingIs b info s' :=
  ⟨h.lt.trans_le hk.nextBacking, by rw [hk.backingInfo b h.lt, h.eq]⟩

theorem Inv.backingIs (h : Inv μ w) (hb : backing b ∈ w.mine) :
    BackingIs b (w.sys.backingInfo b) w.sys :=
  ⟨(h.backing_pos hb).2, rfl⟩

theorem Inv.backing_note (h : Inv μ w) (hb : backing b ∈ w.mine)
    (hn : (w.sys.backingInfo b).note = some n) : n < w.sys.nextNote := by
  obtain ⟨hpos, hlt⟩ := h.backing_pos hb
  have hmem : note n ∈ w.sys.stored := by
    have hle : w.sys.infoPart b ≤ w.sys.stored :=
      ((Tally.le_sum (f := w.sys.infoPart) (Finset.mem_range.2 hlt)).trans
        (le_add_left le_rfl)).trans le_self_add
    refine Multiset.mem_of_le hle ?_
    simp [Sys.infoPart, hpos, BackingInfo.sites, hn]
  by_contra hge
  have := h.pos_stored hmem
  simp [Sys.count, (h.fresh.note n (Nat.le_of_not_lt hge)).1] at this

/-! ## Reads -/

/-- A step that only looks at the state, of which `P` holds whatever the others do. -/
theorem look_spec {α : Type} {o : Sys.Op α} {P : Sys → Prop} (f : Sys → α)
    (hexec : ∀ (s : Sys) woken, s.exec (o.wake woken) = .ok (f s) s)
    (htake : ∀ s : Sys, s.take o + s.uses o = 0) (hgive : ∀ (s : Sys) r, s.give o r = s.take o)
    (hneeds : ∀ w : World, K ≤ w.mine → needs μ w o)
    (hstable : ∀ {w : World} {s' : Sys}, Inv μ w → K ≤ w.mine → Keeps K w.sys s' → P w.sys → P s') :
    Triple μ K 0 P (.step o) (fun _ ↦ 0) fun r s ↦ r = f s ∧ P s := by
  refine .step (fun hinv hle hk h ↦ ?_)
    (fun _ hle _ ↦ ⟨(htake _).le, hneeds _ (le_self_add.trans hle)⟩)
    fun {w w' r} _ _ h hn _ ↦ ⟨by rw [hgive], ?_⟩
  · rw [add_zero] at hle hk
    exact hstable hinv hle hk h
  · obtain ⟨woken, hex⟩ := hn.exec
    rw [hexec] at hex
    obtain ⟨hr, hs⟩ := Prog.Outcome.ok.inj hex
    rw [← hs]
    exact ⟨hr.symm, h⟩

theorem noteInfo_spec {info : NoteInfo} :
    Triple μ 0 0 (NoteIs n info) (Note.info n) (fun _ ↦ 0)
      fun r s ↦ r = info ∧ NoteIs n info s :=
  (look_spec (o := .noteInfo n) (fun s ↦ s.noteInfo n) (fun _ _ ↦ rfl) (fun _ ↦ rfl)
    (fun _ _ ↦ rfl) (fun _ _ ↦ trivial) fun _ _ hk h ↦ h.keeps hk).post
      fun _ _ h ↦ ⟨h.1.trans h.2.eq, h.2⟩

theorem noteInfo_any : Spends μ 0 0 (fun _ ↦ True) (Note.info n) :=
  .act (fun _ _ ↦ ⟨le_rfl, trivial⟩) rfl

theorem backingInfo_spec {info : BackingInfo} :
    Triple μ {backing b} 0 (BackingIs b info) (Backing.info b) (fun _ ↦ 0)
      fun r s ↦ r = info ∧ BackingIs b info s :=
  (look_spec (o := .backingInfo b) (fun s ↦ s.backingInfo b) (fun _ _ ↦ rfl) (fun _ ↦ rfl)
    (fun _ _ ↦ rfl) (fun _ hle ↦ Multiset.singleton_le.1 hle) fun _ _ hk h ↦ h.keeps hk).post
      fun _ _ h ↦ ⟨h.1.trans h.2.eq, h.2⟩

theorem loadSize_spec :
    Triple μ 0 0 (fun _ ↦ True) (Note.loadSize n) (fun _ ↦ 0) fun r s ↦ r = s.noteSize n :=
  (look_spec (o := .noteSize n) (fun s ↦ s.noteSize n) (fun _ _ ↦ rfl) (fun _ ↦ rfl)
    (fun _ _ ↦ rfl) (fun _ _ ↦ trivial) fun _ _ _ h ↦ h).post fun _ _ h ↦ h.1

theorem activeMappings_spec :
    Triple μ 0 0 (fun _ ↦ True) (.step (.activeMappings n)) (fun _ ↦ 0)
      fun r s ↦ r = s.activeMappings n :=
  (look_spec (o := .activeMappings n) (fun s ↦ s.activeMappings n) (fun _ _ ↦ rfl) (fun _ ↦ rfl)
    (fun _ _ ↦ rfl) (fun _ _ ↦ trivial) fun _ _ _ h ↦ h).post fun _ _ h ↦ h.1

theorem tlbAvailable_spec :
    Triple μ 0 0 (fun _ ↦ True) (.step .tlbAvailable) (fun _ ↦ 0)
      fun r s ↦ r = decide (s.tlbEntries ≠ 0) :=
  (look_spec (o := .tlbAvailable) (fun s ↦ decide (s.tlbEntries ≠ 0)) (fun _ _ ↦ rfl)
    (fun _ ↦ rfl) (fun _ _ ↦ rfl) (fun _ _ ↦ trivial) fun _ _ _ h ↦ h).post fun _ _ h ↦ h.1

theorem closing_spec :
    Spends μ 0 0 (fun _ ↦ True) (.step (.closing i)) :=
  .act (fun _ _ ↦ ⟨le_rfl, trivial⟩) rfl

/-! ## Locks -/

theorem lockSpace_spec :
    Triple μ 0 0 (fun s ↦ i < s.nextSpace) (.step (.lockSpace i))
      (fun c ↦ {lock (.space i)} + Space.sites c) fun c s ↦ SpaceOk μ s i c := by
  refine .step (fun _ _ hk h ↦ h.trans_le hk.nextSpace)
    (fun _ _ h ↦ ⟨le_rfl, Sys.space_mem_locks.2 h⟩)
    fun {w w' c} hinv _ h hn _ ↦ ⟨add_comm _ _, ?_⟩
  obtain ⟨woken, hexec⟩ := hn.exec
  obtain ⟨hfree, rfl, hs⟩ := Sys.lock_ok hexec
  rw [hs]
  have hok := hinv.locks (.space i) (Sys.space_mem_locks.2 h) hfree
  exact SpaceOk.congr hok rfl (fun _ _ ↦ rfl) fun _ _ _ _ hr ↦ hr

theorem unlockSpace_spec {c : Space} :
    Triple μ 0 ({lock (.space i)} + c.sites) (fun s ↦ SpaceOk μ s i c)
      (.step (.unlockSpace i c)) (fun _ ↦ 0)
      fun _ s ↦ s.space i = c ∧ s.held (.space i) = false := by
  refine .step (fun hinv hle hk h ↦ ?_) (fun _ _ h ↦ ⟨(add_zero _).le, h⟩)
    fun {w w' b} _ _ _ hn _ ↦ ⟨add_comm _ _, ?_⟩
  · refine h.keeps hk (by simp) ?_ (hinv.bound_lt (le_trans ?_ hle))
    · rw [zero_add, Space.sites]
      exact le_add_left le_self_add
    · rw [zero_add, Space.sites]
      exact le_add_left (le_add_left le_rfl)
  · obtain ⟨woken, hexec⟩ := hn.exec
    obtain ⟨-, hs⟩ := Prog.Outcome.ok.inj hexec
    rw [← hs]
    exact ⟨Function.update_self .., Function.update_self ..⟩

theorem lockBrk_spec :
    Triple μ 0 0 (fun s ↦ i < s.nextSpace) (.step (.lockBrk i)) (fun _ ↦ {lock (.brk i)})
      fun _ _ ↦ True :=
  .step (fun _ _ hk h ↦ h.trans_le hk.nextSpace) (fun _ _ h ↦ ⟨le_rfl, Sys.brk_mem_locks.2 h⟩)
    fun _ _ _ _ _ ↦ ⟨add_comm _ _, trivial⟩

theorem unlockBrk_spec (brk : Brk) :
    Spends μ 0 {lock (.brk i)} (fun _ ↦ True) (.step (.unlockBrk i brk)) :=
  .act (fun _ _ ↦ ⟨le_rfl, trivial⟩) (add_comm _ _)

theorem lockLineage_spec :
    Triple μ 0 0 (fun s ↦ l < s.nextLineage) (.step (.lockLineage l))
      (fun v ↦ {lock (.lineage l)} + Lineage.sites v) fun v s ↦ LineageOk s l v := by
  refine .step (fun _ _ hk h ↦ h.trans_le hk.nextLineage)
    (fun _ _ h ↦ ⟨le_rfl, Sys.lineage_mem_locks.2 h⟩)
    fun {w w' c} hinv _ h hn _ ↦ ⟨add_comm _ _, ?_⟩
  obtain ⟨woken, hexec⟩ := hn.exec
  obtain ⟨hfree, rfl, hs⟩ := Sys.lock_ok hexec
  rw [hs]
  have hok := hinv.locks (.lineage l) (Sys.lineage_mem_locks.2 h) hfree
  exact LineageOk.congr hok (fun _ ↦ Iff.rfl) fun _ _ ↦ rfl

theorem unlockLineage_spec {v : Lineage} :
    Spends μ 0 ({lock (.lineage l)} + v.sites) (fun s ↦ LineageOk s l v)
      (.step (.unlockLineage l v)) :=
  .step (fun _ _ hk h ↦ h.keeps hk (by simp)) (fun _ _ h ↦ ⟨(add_zero _).le, h⟩)
    fun _ _ _ _ _ ↦ ⟨add_comm _ _, trivial⟩

theorem lockBacking_spec :
    Triple μ 0 {backing b} (fun _ ↦ True) (.step (.lockBacking b))
      (fun pages ↦ {lock (.backing b)} + CachedPages.sites pages)
      fun pages _ ↦ CachedPages.Sorted pages := by
  refine .step (fun _ _ _ h ↦ h) (fun _ _ h ↦ ⟨(add_zero _).le, trivial⟩)
    fun {w w' c} hinv hle h hn _ ↦ ⟨add_comm _ _, ?_⟩
  obtain ⟨woken, hexec⟩ := hn.exec
  obtain ⟨hfree, rfl, -⟩ := Sys.lock_ok hexec
  obtain ⟨hpos, hlt⟩ := hinv.backing_pos (b := b) (Multiset.mem_of_le hle (by simp))
  exact hinv.locks (.backing b) (Sys.backing_mem_locks.2 hlt) hfree hpos

theorem unlockBacking_spec {pages : CachedPages} (hsorted : pages.Sorted) :
    Triple μ 0 ({lock (.backing b)} + pages.sites) (fun _ ↦ True)
      (.step (.unlockBacking b pages)) (fun _ ↦ {backing b}) fun _ _ ↦ True :=
  .act (fun _ _ ↦ ⟨(add_zero _).le, hsorted⟩) (add_comm _ _)

end MiniMM
