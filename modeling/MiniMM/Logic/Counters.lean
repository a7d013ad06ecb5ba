import MiniMM.Logic.Locks

/-!
# Translations, references and new objects keep the invariant
-/

namespace MiniMM

open Handle Tally

theorem Tlb.sites_set {t : Tlb} {k : ℕ} (hk : k < t.capacity) (e : Option TlbEntry) :
    Tlb.sites { t with entries := Function.update t.entries k e } + tlbEntrySites (t.entries k) =
      t.sites + tlbEntrySites e := by
  have hsum := sum_change (s := Finset.range t.capacity)
    (f := fun j ↦ tlbEntrySites (Function.update t.entries k e j))
    (g := fun j ↦ tlbEntrySites (t.entries j)) (Finset.mem_range.2 hk)
    fun j hj ↦ by rw [Function.update_of_ne hj]
  rwa [Function.update_self] at hsum

@[simp] theorem Sys.emptyTlb_sites (capacity : ℕ) : (emptyTlb capacity).sites = 0 := by
  simp [Tlb.sites, emptyTlb, tlbEntrySites]

theorem Sys.unheld_insert {s t : Sys} {l : LockId} (hl : l ∉ s.locks)
    (hlocks : t.locks = insert l s.locks)
    (hsame : ∀ k ∈ s.locks, t.unheldPart k = s.unheldPart k) :
    ∑ k ∈ t.locks, t.unheldPart k = ∑ k ∈ s.locks, s.unheldPart k + t.unheldPart l := by
  rw [hlocks, Finset.sum_insert hl, Finset.sum_congr rfl hsame, add_comm]

namespace Inv

variable {μ : Mode} {w : World} {mine' p r : Multiset Handle} {f : FrameId}

/-- The invariant of a system with the frame store and the references as before. -/
theorem beside (h : Inv μ w) {s' : Sys} {u d : Multiset Handle} (hstore : s'.store = w.sys.store)
    (hrefs : s'.refs = w.sys.refs) (hmine : mine' + p = w.mine + r)
    (hstored : s'.stored + r + d = w.sys.stored + p + u)
    (hcount : ∀ x, s'.count x + d.count x = w.sys.count x + u.count x)
    (hlent : ∀ b, s'.held (.backing b) = true → s'.backingRefs b ≠ 0) (hfresh : s'.Fresh)
    (htlbs : s'.TlbsOk) (hlocks : ∀ l ∈ s'.locks, s'.held l = false → s'.LockOk μ l) :
    Inv μ ⟨s', mine', w.others⟩ where
  store := hstore ▸ h.store
  tally := h.tally_change hmine hstored hcount
  live := by
    rw [hrefs, hstore]
    exact h.live
  lent := hlent
  fresh := hfresh
  tlbs := htlbs
  locks := hlocks

theorem tlb_change (h : Inv μ w) {i : SpaceId} (hl : lock (.space i) ∈ w.mine) {t : Tlb}
    (hmine : mine' + p = w.mine + r) (hsites : t.sites + r = (w.sys.tlb i).sites + p)
    (hcap : t.capacity = (w.sys.tlb i).capacity)
    (ht : ∀ k e, t.entries k = some e → k < t.capacity ∧ Tlb.index t.capacity e.virtualPage = k) :
    Inv μ ⟨{ w.sys with tlb := Function.update w.sys.tlb i t }, mine', w.others⟩ := by
  have hi : i < w.sys.nextSpace := Sys.space_mem_locks.1 (h.lock_exists hl)
  have hstored := Sys.stored_change (s := w.sys)
    (t := { w.sys with tlb := Function.update w.sys.tlb i t }) (c := 0) (d := 0) (e := 0) (f := 0)
    (sum_change (f := fun j ↦ (Function.update w.sys.tlb i t j).sites) (Finset.mem_range.2 hi)
      fun j hj ↦ by rw [Function.update_of_ne hj]) rfl rfl
  simp only [Function.update_self, add_zero] at hstored
  refine h.beside (u := 0) (d := 0) rfl rfl hmine ?_ (fun x ↦ rfl) h.lent
    ⟨h.fresh.frame, h.fresh.lock, h.fresh.backing, h.fresh.note, h.fresh.noteLineage⟩ ?_ ?_
  · refine add_right_cancel (b := (w.sys.tlb i).sites) ?_
    calc Sys.stored { w.sys with tlb := Function.update w.sys.tlb i t } + r + 0 +
            (w.sys.tlb i).sites
        = (Sys.stored { w.sys with tlb := Function.update w.sys.tlb i t } +
            (w.sys.tlb i).sites) + r := by abel
      _ = w.sys.stored + (t.sites + r) := by
        rw [hstored]
        abel
      _ = w.sys.stored + p + 0 + (w.sys.tlb i).sites := by
        rw [hsites]
        abel
  · refine ⟨fun j k e ↦ ?_, fun j hj ↦ ?_⟩ <;> by_cases hji : j = i
    · subst hji
      simp only [Function.update_self]
      exact ht k e
    · simp only [Function.update_of_ne hji]
      exact h.tlbs.entry j k e
    · subst hji
      simp only [Function.update_self, hcap]
      exact h.tlbs.capacity j hj
    · simp only [Function.update_of_ne hji]
      exact h.tlbs.capacity j hj
  · intro l hl' hfree
    have hok := h.locks l hl' hfree
    cases l with
    | space j =>
      have hj : j ≠ i := by
        rintro rfl
        cases hfree.symm.trans (h.held_of_mem hl)
      exact hok.congr (Function.update_of_ne hj _ _) (fun _ _ ↦ rfl) fun _ _ _ _ hr ↦ hr
    | brk j => trivial
    | backing b => exact hok
    | lineage v => exact hok.congr (fun _ ↦ Iff.rfl) fun _ _ ↦ rfl

/-! ## Backings -/

theorem newBacking (h : Inv μ w) {info : BackingInfo}
    (hmine : mine' + info.sites = w.mine + {backing w.sys.nextBacking}) :
    Inv μ ⟨{ w.sys with
      backingInfo := Function.update w.sys.backingInfo w.sys.nextBacking info
      backingPages := Function.update w.sys.backingPages w.sys.nextBacking []
      backingRefs := Function.update w.sys.backingRefs w.sys.nextBacking 1
      nextBacking := w.sys.nextBacking + 1 }, mine', w.others⟩ := by
  have hzero := h.fresh.backing _ (le_refl w.sys.nextBacking)
  have hfree := h.fresh.lock (.backing w.sys.nextBacking) (by simp)
  generalize hs : ({ w.sys with
      backingInfo := Function.update w.sys.backingInfo w.sys.nextBacking info
      backingPages := Function.update w.sys.backingPages w.sys.nextBacking []
      backingRefs := Function.update w.sys.backingRefs w.sys.nextBacking 1
      nextBacking := w.sys.nextBacking + 1 } : Sys) = s'
  have hlocks : s'.locks = insert (.backing w.sys.nextBacking) w.sys.locks := by
    subst hs
    ext l
    cases l <;> simp [Nat.le_iff_lt_or_eq, or_comm]
  have hne : ∀ {b}, b < w.sys.nextBacking → b ≠ w.sys.nextBacking := fun hb ↦ hb.ne
  have hinfo : s'.infoStored = w.sys.infoStored + info.sites := by
    subst hs
    simp only [Sys.infoStored, Finset.sum_range_succ, Sys.infoPart, Function.update_self,
      one_ne_zero, if_false]
    congr 1
    refine Finset.sum_congr rfl fun b hb ↦ ?_
    simp only [Function.update_of_ne (hne (Finset.mem_range.1 hb))]
  have hunheld := Sys.unheld_insert (s := w.sys) (t := s') (l := .backing w.sys.nextBacking)
    (by simp) hlocks (by
      subst hs
      intro k hk
      cases k with
      | backing b =>
        have hb := hne (Sys.backing_mem_locks.1 hk)
        simp only [Sys.unheldPart, Sys.guarded, Function.update_of_ne hb]
      | _ => rfl)
  have hlast : s'.unheldPart (.backing w.sys.nextBacking) = 0 := by
    subst hs
    simp [Sys.unheldPart, Sys.guarded]
  refine h.beside (u := {backing w.sys.nextBacking}) (d := 0) (show s'.store = _ by subst hs; rfl)
    (by subst hs; rfl) hmine ?_ ?_ ?_ ?_ (by subst hs; exact ⟨h.tlbs.entry, h.tlbs.capacity⟩) ?_
  · have htlb : s'.tlbStored = w.sys.tlbStored := by subst hs; rfl
    simp only [Sys.stored, hinfo, hunheld, hlast, htlb]
    abel
  · intro x
    subst hs
    cases x with
    | backing b =>
      by_cases hb : b = w.sys.nextBacking
      · subst hb
        simp [Sys.count, hfree, hzero]
      · simp [Sys.count, hb]
    | _ => simp [Sys.count]
  · intro b hb
    subst hs
    by_cases heq : b = w.sys.nextBacking
    · simp [heq]
    · simpa [Function.update_of_ne heq] using h.lent b hb
  · refine ⟨by subst hs; exact h.fresh.frame, ?_, ?_, by subst hs; exact h.fresh.note,
      by subst hs; exact h.fresh.noteLineage⟩
    · intro l hl
      rw [hlocks, Finset.mem_insert, not_or] at hl
      subst hs
      exact h.fresh.lock l hl.2
    · subst hs
      intro b hb
      have hlt : w.sys.nextBacking < b := hb
      simpa [Function.update_of_ne hlt.ne'] using h.fresh.backing b hlt.le
  · intro l hl hfree'
    rw [hlocks, Finset.mem_insert] at hl
    subst hs
    rcases hl with rfl | hl
    · simp [Sys.LockOk, CachedPages.Sorted]
    have hok := h.locks l hl hfree'
    cases l with
    | space i =>
      refine hok.congr rfl (fun b hb ↦ ?_) fun _ _ _ _ hr ↦ hr
      exact Function.update_of_ne (hne (h.binding_lt hl hfree' hb)) _ _
    | brk i => trivial
    | backing b =>
      have hb := hne (Sys.backing_mem_locks.1 hl)
      simpa only [Sys.LockOk, Function.update_of_ne hb] using hok
    | lineage v => exact hok.congr (fun _ ↦ Iff.rfl) fun _ _ ↦ rfl

/-- Only the references to one backing change, from and to something else than none. -/
theorem backingRefs_change (h : Inv μ w) {b : BackingId} {n : ℕ} (hb : b < w.sys.nextBacking)
    (hn : w.sys.backingRefs b ≠ 0) (hn' : n ≠ 0) {u d : Multiset Handle}
    (hmine : mine' + d = w.mine + u)
    (hcount : n - (if w.sys.held (.backing b) then 1 else 0) + d.count (backing b) =
      w.sys.count (backing b) + u.count (backing b))
    (hothers : ∀ x, x ≠ backing b → d.count x = u.count x) :
    Inv μ ⟨{ w.sys with backingRefs := Function.update w.sys.backingRefs b n }, mine',
      w.others⟩ := by
  have hz : ∀ c, Function.update w.sys.backingRefs b n c = 0 ↔ w.sys.backingRefs c = 0 := by
    intro c
    by_cases hc : c = b
    · subst hc
      simp [hn, hn']
    · rw [Function.update_of_ne hc]
  refine h.beside (u := u) (d := d) rfl rfl hmine ?_ ?_ ?_ ?_ ⟨h.tlbs.entry, h.tlbs.capacity⟩ ?_
  · have hstored : Sys.stored { w.sys with
        backingRefs := Function.update w.sys.backingRefs b n } = w.sys.stored := by
      have hunheld : ∀ l, Sys.unheldPart { w.sys with
          backingRefs := Function.update w.sys.backingRefs b n } l = w.sys.unheldPart l := by
        intro l
        cases l <;> simp only [Sys.unheldPart, Sys.guarded, hz]
      simp only [Sys.stored, Sys.infoStored, Sys.infoPart, hz, hunheld]
      rfl
    rw [hstored, add_assoc, add_assoc, add_comm u]
  · intro x
    cases x with
    | backing c =>
      by_cases hc : c = b
      · subst hc
        simpa [Sys.count] using hcount
      · simp [Sys.count, Function.update_of_ne hc, hothers (backing c) (by simpa using hc)]
    | _ => rw [hothers _ (by simp)]; rfl
  · intro c hc
    rw [Ne, hz]
    exact h.lent c hc
  · refine ⟨h.fresh.frame, h.fresh.lock, fun c hc ↦ (hz c).2 (h.fresh.backing c hc), h.fresh.note,
      h.fresh.noteLineage⟩
  · intro l hl hfree
    have hok := h.locks l hl hfree
    cases l with
    | space i => exact hok.congr rfl (fun _ _ ↦ rfl) fun _ _ _ _ hr ↦ hr
    | brk i => trivial
    | backing c =>
      intro hne
      exact hok fun hc ↦ hne ((hz c).2 hc)
    | lineage v => exact hok.congr (fun _ ↦ Iff.rfl) fun _ _ ↦ rfl

theorem retainBacking (h : Inv μ w) {b : BackingId} (hb : backing b ∈ w.mine)
    (hmine : mine' = w.mine + {backing b}) :
    Inv μ ⟨{ w.sys with
      backingRefs := Function.update w.sys.backingRefs b (w.sys.backingRefs b + 1) }, mine',
      w.others⟩ := by
  have hpos := h.pos hb
  obtain ⟨hne, hlt⟩ := h.backing_pos hb
  refine h.backingRefs_change (u := {backing b}) (d := 0) hlt hne (Nat.succ_ne_zero _)
    (by rw [hmine, add_zero]) ?_ fun x hx ↦ (count_single hx).symm
  simp only [Sys.count] at hpos ⊢
  simp only [Multiset.count_zero, Multiset.count_singleton_self]
  omega

theorem lastBacking (h : Inv μ w) {b : BackingId} (hb : backing b ∈ w.mine)
    (hone : w.sys.backingRefs b = 1) (hmine : mine' + {backing b} =
      w.mine + (CachedPages.sites (w.sys.backingPages b) + (w.sys.backingInfo b).sites)) :
    Inv μ ⟨{ w.sys with backingRefs := Function.update w.sys.backingRefs b 0 }, mine',
      w.others⟩ := by
  have hpos := h.pos hb
  have hlt := (h.backing_pos hb).2
  have hfree : w.sys.held (.backing b) = false := by
    by_contra hheld
    simp [Sys.count, hone, hheld] at hpos
  generalize hs : ({ w.sys with
    backingRefs := Function.update w.sys.backingRefs b 0 } : Sys) = s'
  have hstored : s'.stored +
      (CachedPages.sites (w.sys.backingPages b) + (w.sys.backingInfo b).sites) = w.sys.stored := by
    have hinfo : s'.infoStored + w.sys.infoPart b = w.sys.infoStored + s'.infoPart b := by
      subst hs
      exact sum_change (f := Sys.infoPart { w.sys with
          backingRefs := Function.update w.sys.backingRefs b 0 }) (Finset.mem_range.2 hlt)
        fun c hc ↦ by simp only [Sys.infoPart, Function.update_of_ne hc]
    have hunheld := Sys.unheld_change (s := w.sys) (t := s') (Sys.backing_mem_locks.2 hlt)
      (by subst hs; rfl) fun l hl ↦ by
        subst hs
        cases l with
        | backing c =>
          have hc : c ≠ b := fun heq ↦ hl (congrArg _ heq)
          simp only [Sys.unheldPart, Sys.guarded, Function.update_of_ne hc]
        | _ => rfl
    have hch := Sys.stored_change (s := w.sys) (t := s') (a := 0) (b := 0) (by subst hs; rfl) hinfo
      hunheld
    have hparts : s'.infoPart b = 0 ∧ s'.unheldPart (.backing b) = 0 := by
      subst hs
      simp [Sys.infoPart, Sys.unheldPart, Sys.guarded]
    rw [hparts.1, hparts.2] at hch
    simp only [Sys.infoPart, Sys.unheldPart, Sys.guarded, hone, hfree, one_ne_zero, if_false,
      Bool.false_eq_true, add_zero, zero_add] at hch
    rw [← hch]
    abel
  refine h.beside (u := 0) (d := {backing b}) (by subst hs; rfl) (by subst hs; rfl) hmine
    (by rw [hstored, add_zero]) ?_ ?_ ?_ (by subst hs; exact ⟨h.tlbs.entry, h.tlbs.capacity⟩) ?_
  · intro x
    subst hs
    cases x with
    | backing c =>
      by_cases hc : c = b
      · subst hc
        simp [Sys.count, hone, hfree]
      · simp [Sys.count, hc]
    | _ => simp [Sys.count]
  · intro c hc
    subst hs
    have hcb : c ≠ b := by
      rintro rfl
      exact absurd hc (by simp [hfree])
    simpa [Function.update_of_ne hcb] using h.lent c hc
  · subst hs
    refine ⟨h.fresh.frame, h.fresh.lock, fun c hc ↦ ?_, h.fresh.note, h.fresh.noteLineage⟩
    have hcb : c ≠ b := (hlt.trans_le hc).ne'
    simpa [Function.update_of_ne hcb] using h.fresh.backing c hc
  · intro l hl hfree'
    subst hs
    have hok := h.locks l hl hfree'
    cases l with
    | space i => exact hok.congr rfl (fun _ _ ↦ rfl) fun _ _ _ _ hr ↦ hr
    | brk i => trivial
    | backing c =>
      intro hne
      refine hok fun hc ↦ hne ?_
      by_cases hcb : c = b
      · simp [hcb]
      · simpa [Function.update_of_ne hcb] using hc
    | lineage v => exact hok.congr (fun _ ↦ Iff.rfl) fun _ _ ↦ rfl

theorem dropBacking (h : Inv μ w) {b : BackingId} (hb : backing b ∈ w.mine)
    (hmine : mine' + {backing b} = w.mine + if w.sys.backingRefs b = 1 then
      CachedPages.sites (w.sys.backingPages b) + (w.sys.backingInfo b).sites else 0) :
    Inv μ ⟨{ w.sys with
      backingRefs := Function.update w.sys.backingRefs b (w.sys.backingRefs b - 1) }, mine',
      w.others⟩ := by
  have hpos := h.pos hb
  obtain ⟨hne, hlt⟩ := h.backing_pos hb
  by_cases hone : w.sys.backingRefs b = 1
  · rw [if_pos hone] at hmine
    rw [hone]
    exact h.lastBacking hb hone hmine
  · rw [if_neg hone] at hmine
    refine h.backingRefs_change (u := 0) (d := {backing b}) hlt hne (by omega) hmine ?_
      fun x hx ↦ count_single hx
    simp only [Sys.count] at hpos ⊢
    simp only [Multiset.count_zero, Multiset.count_singleton_self]
    omega

/-! ## Notes -/

/-- The counters and the sizes of notes change, and no lineage that nobody works on notices. -/
theorem note_change (h : Inv μ w) (size refs active : NoteId → ℕ) {u d : Multiset Handle}
    (hmine : mine' + d = w.mine + u)
    (hcount : ∀ x, Sys.count { w.sys with
      noteSize := size, noteRefs := refs, activeMappings := active } x + d.count x =
        w.sys.count x + u.count x)
    (hfresh : ∀ n, w.sys.nextNote ≤ n → refs n = 0 ∧ active n = 0)
    (hsize : ∀ n, size n ≠ w.sys.noteSize n → lock (.lineage (w.sys.noteInfo n).lineage) ∈ w.mine) :
    Inv μ ⟨{ w.sys with noteSize := size, noteRefs := refs, activeMappings := active }, mine',
      w.others⟩ := by
  refine h.beside (u := u) (d := d) rfl rfl hmine
    (by rw [add_assoc, add_assoc, add_comm d]; rfl) hcount h.lent
    ⟨h.fresh.frame, h.fresh.lock, h.fresh.backing, hfresh, h.fresh.noteLineage⟩
    ⟨h.tlbs.entry, h.tlbs.capacity⟩ ?_
  intro l hl hfree
  have hok := h.locks l hl hfree
  cases l with
  | space i => exact hok.congr rfl (fun _ _ ↦ rfl) fun _ _ _ _ hr ↦ hr
  | brk i => trivial
  | backing b => exact hok
  | lineage v =>
    refine hok.congr (fun _ ↦ Iff.rfl) fun n hn ↦ ?_
    by_contra hne
    have hheld := h.held_of_mem (hsize n hne)
    rw [((hok.member n).1 hn).2, hfree] at hheld
    cases hheld

theorem newNote (h : Inv μ w) {info : NoteInfo} {size : ℕ}
    (hl : lock (.lineage info.lineage) ∈ w.mine) (hmine : mine' = w.mine + {note w.sys.nextNote}) :
    Inv μ ⟨{ w.sys with
      noteInfo := Function.update w.sys.noteInfo w.sys.nextNote info
      noteSize := Function.update w.sys.noteSize w.sys.nextNote size
      noteRefs := Function.update w.sys.noteRefs w.sys.nextNote 1
      activeMappings := Function.update w.sys.activeMappings w.sys.nextNote 0
      nextNote := w.sys.nextNote + 1 }, mine', w.others⟩ := by
  obtain ⟨hrefs, hactive⟩ := h.fresh.note _ (le_refl w.sys.nextNote)
  refine h.beside (p := 0) (r := {note w.sys.nextNote}) (u := {note w.sys.nextNote})
    (d := 0) rfl rfl (by rw [hmine, add_zero]) (by rw [add_zero, add_zero]; rfl) ?_ h.lent
    ⟨h.fresh.frame, h.fresh.lock, h.fresh.backing, fun n hn ↦ ?_, fun n hn ↦ ?_⟩
    ⟨h.tlbs.entry, h.tlbs.capacity⟩ ?_
  · intro x
    cases x with
    | note n =>
      by_cases hn : n = w.sys.nextNote
      · subst hn
        simp [Sys.count, hrefs]
      · simp [Sys.count, hn]
    | mapping n =>
      by_cases hn : n = w.sys.nextNote
      · subst hn
        simp [Sys.count, hactive]
      · simp [Sys.count, hn]
    | _ => simp [Sys.count]
  · have hlt : w.sys.nextNote < n := hn
    simpa [Function.update_of_ne hlt.ne'] using h.fresh.note n hlt.le
  · rcases Nat.lt_succ_iff_lt_or_eq.1 hn with hlt | rfl
    · simpa [Function.update_of_ne hlt.ne] using h.fresh.noteLineage n hlt
    · simpa using Sys.lineage_mem_locks.1 (h.lock_exists hl)
  · intro l hl' hfree
    have hok := h.locks l hl' hfree
    cases l with
    | space i => exact hok.congr rfl (fun _ _ ↦ rfl) fun _ _ _ _ hr ↦ hr
    | brk i => trivial
    | backing b => exact hok
    | lineage v =>
      have hv : info.lineage ≠ v := by
        rintro rfl
        cases hfree.symm.trans (h.held_of_mem hl)
      refine hok.congr (fun n ↦ ?_) fun n hn ↦ ?_
      · by_cases hn : n = w.sys.nextNote
        · subst hn
          simp [hv]
        · simp only [Function.update_of_ne hn]
          refine and_congr_left fun _ ↦ ⟨fun hlt ↦ ?_, fun hlt ↦ Nat.lt_succ_of_lt hlt⟩
          exact lt_of_le_of_ne (Nat.lt_succ_iff.1 hlt) hn
      · exact Function.update_of_ne ((hok.member n).1 hn).1.ne _ _

/-! ## Lineages and spaces -/

theorem newLineage (h : Inv μ w)
    (hmine : mine' = w.mine + {lock (.lineage w.sys.nextLineage)}) :
    Inv μ ⟨{ w.sys with
      held := Function.update w.sys.held (.lineage w.sys.nextLineage) true
      nextLineage := w.sys.nextLineage + 1 }, mine', w.others⟩ := by
  have hnew : LockId.lineage w.sys.nextLineage ∉ w.sys.locks := by simp
  have hfree := h.fresh.lock _ hnew
  generalize hs : ({ w.sys with
      held := Function.update w.sys.held (.lineage w.sys.nextLineage) true
      nextLineage := w.sys.nextLineage + 1 } : Sys) = s'
  have hlocks : s'.locks = insert (.lineage w.sys.nextLineage) w.sys.locks := by
    subst hs
    ext l
    cases l <;> simp [Nat.le_iff_lt_or_eq, or_comm]
  have hheld : ∀ l, l ≠ .lineage w.sys.nextLineage → s'.held l = w.sys.held l := by
    subst hs
    exact fun l hl ↦ Function.update_of_ne hl _ _
  have hself : s'.held (.lineage w.sys.nextLineage) = true := by
    subst hs
    exact Function.update_self ..
  refine h.beside (p := 0) (r := {lock (.lineage w.sys.nextLineage)})
    (u := {lock (.lineage w.sys.nextLineage)}) (d := 0) (by subst hs; rfl) (by subst hs; rfl)
    (by rw [hmine, add_zero]) ?_ ?_ ?_ ?_ (by subst hs; exact ⟨h.tlbs.entry, h.tlbs.capacity⟩) ?_
  · have hunheld := Sys.unheld_insert hnew hlocks fun k hk ↦ by
      have hne : k ≠ .lineage w.sys.nextLineage := fun heq ↦ hnew (heq ▸ hk)
      simp only [Sys.unheldPart, hheld k hne]
      subst hs
      rfl
    have hzero : s'.unheldPart (.lineage w.sys.nextLineage) = 0 := by simp [Sys.unheldPart, hself]
    rw [Sys.stored, hunheld, hzero]
    subst hs
    simp [Sys.stored, Sys.infoStored, Sys.tlbStored, Sys.infoPart]
  · intro x
    cases x with
    | lock l =>
      by_cases hl : l = .lineage w.sys.nextLineage
      · subst hl
        simp [Sys.count, hself, hfree]
      · simp [Sys.count, hheld l hl, hl]
    | backing b =>
      rw [count_single (by simp), Sys.count, hheld _ (by simp)]
      subst hs
      rfl
    | _ =>
      subst hs
      simp [Sys.count]
  · intro b hb
    rw [hheld _ (by simp)] at hb
    subst hs
    exact h.lent b hb
  · refine ⟨by subst hs; exact h.fresh.frame, fun l hl ↦ ?_, by subst hs; exact h.fresh.backing,
      by subst hs; exact h.fresh.note, fun n hn ↦ ?_⟩
    · rw [hlocks, Finset.mem_insert, not_or] at hl
      rw [hheld l hl.1]
      exact h.fresh.lock l hl.2
    · subst hs
      exact Nat.lt_succ_of_lt (h.fresh.noteLineage n hn)
  · intro l hl hfree'
    rw [hlocks, Finset.mem_insert] at hl
    rcases hl with rfl | hl
    · cases hself.symm.trans hfree'
    rw [hheld l fun heq ↦ hnew (heq ▸ hl)] at hfree'
    have hok := h.locks l hl hfree'
    subst hs
    cases l with
    | space i => exact hok.congr rfl (fun _ _ ↦ rfl) fun _ _ _ _ hr ↦ hr
    | brk i => trivial
    | backing b => exact hok
    | lineage v => exact hok.congr (fun _ ↦ Iff.rfl) fun _ _ ↦ rfl

theorem newSpace (h : Inv μ w) {c : Space} {brk : Brk} (hroom : w.sys.tlbEntries ≠ 0)
    (hmine : mine' = w.mine + {lock (.space w.sys.nextSpace), lock (.brk w.sys.nextSpace)}) :
    Inv μ ⟨{ w.sys with
      space := Function.update w.sys.space w.sys.nextSpace c
      brk := Function.update w.sys.brk w.sys.nextSpace brk
      tlb := Function.update w.sys.tlb w.sys.nextSpace (Sys.emptyTlb w.sys.tlbEntries)
      held := Function.update (Function.update w.sys.held (.space w.sys.nextSpace) true)
        (.brk w.sys.nextSpace) true
      nextSpace := w.sys.nextSpace + 1 }, mine', w.others⟩ := by
  have hfree1 := h.fresh.lock (.space w.sys.nextSpace) (by simp)
  have hfree2 := h.fresh.lock (.brk w.sys.nextSpace) (by simp)
  generalize hs : ({ w.sys with
      space := Function.update w.sys.space w.sys.nextSpace c
      brk := Function.update w.sys.brk w.sys.nextSpace brk
      tlb := Function.update w.sys.tlb w.sys.nextSpace (Sys.emptyTlb w.sys.tlbEntries)
      held := Function.update (Function.update w.sys.held (.space w.sys.nextSpace) true)
        (.brk w.sys.nextSpace) true
      nextSpace := w.sys.nextSpace + 1 } : Sys) = s'
  have hlocks : s'.locks =
      insert (.space w.sys.nextSpace) (insert (.brk w.sys.nextSpace) w.sys.locks) := by
    subst hs
    ext l
    cases l <;> simp [Nat.le_iff_lt_or_eq, or_comm]
  have hheld : ∀ l, l ≠ .space w.sys.nextSpace → l ≠ .brk w.sys.nextSpace →
      s'.held l = w.sys.held l := by
    subst hs
    intro l h1 h2
    simp only [Function.update_of_ne h1, Function.update_of_ne h2]
  have hself : s'.held (.space w.sys.nextSpace) = true ∧ s'.held (.brk w.sys.nextSpace) = true := by
    subst hs
    simp
  have hspace : ∀ i, i ≠ w.sys.nextSpace →
      s'.space i = w.sys.space i ∧ s'.tlb i = w.sys.tlb i := by
    subst hs
    intro i hi
    simp only [Function.update_of_ne hi, and_self]
  have hne : ∀ l ∈ w.sys.locks, l ≠ .space w.sys.nextSpace ∧ l ≠ .brk w.sys.nextSpace := by
    intro l hl
    constructor <;> (rintro rfl; simp at hl)
  refine h.beside (p := 0) (r := {lock (.space w.sys.nextSpace), lock (.brk w.sys.nextSpace)})
    (u := {lock (.space w.sys.nextSpace), lock (.brk w.sys.nextSpace)}) (d := 0) (by subst hs; rfl)
    (by subst hs; rfl) (by rw [hmine, add_zero]) ?_ ?_ ?_ ?_ ?_ ?_
  · have hunheld : ∑ k ∈ s'.locks, s'.unheldPart k = ∑ k ∈ w.sys.locks, w.sys.unheldPart k := by
      rw [hlocks, Finset.sum_insert (by simp), Finset.sum_insert (by simp)]
      simp only [Sys.unheldPart, hself, if_true, zero_add]
      refine Finset.sum_congr rfl fun k hk ↦ ?_
      rw [hheld k (hne k hk).1 (hne k hk).2]
      cases k with
      | space i =>
        rw [Sys.guarded, Sys.guarded, (hspace i fun heq ↦ (hne _ hk).1 (congrArg _ heq)).1]
      | _ =>
        subst hs
        rfl
    have htlb : s'.tlbStored = w.sys.tlbStored := by
      subst hs
      simp only [Sys.tlbStored, Finset.sum_range_succ, Function.update_self, Sys.emptyTlb_sites,
        add_zero]
      refine Finset.sum_congr rfl fun i hi ↦ ?_
      simp only [Function.update_of_ne (Finset.mem_range.1 hi).ne]
    have hinfo : s'.infoStored = w.sys.infoStored := by
      subst hs
      rfl
    rw [Sys.stored, hunheld, htlb, hinfo, add_zero, add_zero]
    rfl
  · intro x
    cases x with
    | lock l =>
      by_cases h1 : l = .space w.sys.nextSpace
      · subst h1
        simp [Sys.count, hself.1, hfree1]
      · by_cases h2 : l = .brk w.sys.nextSpace
        · subst h2
          simp [Sys.count, hself.2, hfree2]
        · simp [Sys.count, hheld l h1 h2, h1, h2]
    | backing b =>
      rw [Sys.count, hheld _ (by simp) (by simp)]
      subst hs
      simp [Sys.count]
    | _ =>
      subst hs
      simp [Sys.count]
  · intro b hb
    rw [hheld _ (by simp) (by simp)] at hb
    subst hs
    exact h.lent b hb
  · refine ⟨by subst hs; exact h.fresh.frame, fun l hl ↦ ?_, by subst hs; exact h.fresh.backing,
      by subst hs; exact h.fresh.note, by subst hs; exact h.fresh.noteLineage⟩
    rw [hlocks, Finset.mem_insert, Finset.mem_insert, not_or, not_or] at hl
    rw [hheld l hl.1 hl.2.1]
    exact h.fresh.lock l hl.2.2
  · refine ⟨fun i k e he ↦ ?_, fun i hlt ↦ ?_⟩ <;> by_cases hi : i = w.sys.nextSpace
    · subst hs hi
      simp [Sys.emptyTlb] at he
    · rw [(hspace i hi).2] at he ⊢
      exact h.tlbs.entry i k e he
    · subst hs hi
      simpa [Sys.emptyTlb] using hroom
    · rw [(hspace i hi).2]
      subst hs
      exact h.tlbs.capacity i ((Nat.lt_succ_iff.1 hlt).lt_of_ne hi)
  · intro l hl hfree'
    rw [hlocks, Finset.mem_insert, Finset.mem_insert] at hl
    rcases hl with rfl | rfl | hl
    · cases hself.1.symm.trans hfree'
    · cases hself.2.symm.trans hfree'
    rw [hheld l (hne l hl).1 (hne l hl).2] at hfree'
    have hok := h.locks l hl hfree'
    cases l with
    | space i =>
      obtain ⟨h1, h2⟩ := hspace i fun heq ↦ (hne _ hl).1 (congrArg _ heq)
      rw [Sys.LockOk, h1]
      subst hs
      exact hok.congr h2 (fun _ _ ↦ rfl) fun _ _ _ _ hr ↦ hr
    | brk i => trivial
    | backing b =>
      subst hs
      exact hok
    | lineage v =>
      subst hs
      exact hok.congr (fun _ ↦ Iff.rfl) fun _ _ ↦ rfl

/-! ## Frames -/

theorem retain (h : Inv μ w) (hf : w.Reaches f) (hmine : mine' = w.mine + {ref f}) :
    Inv μ ⟨{ w.sys with refs := Function.update w.sys.refs f (w.sys.refs f + 1) }, mine',
      w.others⟩ := by
  have hpos := h.reaches_pos hf
  have hlive := h.reaches_live hf
  refine h.store_change (p := 0) (r := {ref f}) (u := {ref f}) (d := 0) h.store
    (by rw [hmine, add_zero]) (by simp) ?_ ?_ ?_ fun _ _ _ hr ↦ hr
  · intro x
    cases x with
    | ref g =>
      by_cases hg : g = f
      · subst hg
        simp [Sys.count]
      · simp [Sys.count, hg]
    | last g =>
      by_cases hg : g = f
      · subst hg
        have : w.sys.refs g ≠ 0 := hpos.ne'
        simp [Sys.count, this]
      · simp [Sys.count, Function.update_of_ne hg]
    | _ => simp [Sys.count]
  · intro g hg
    by_cases hgf : g = f
    · exact hgf ▸ hlive
    · rw [Function.update_of_ne hgf] at hg
      exact h.live g hg
  · intro g hg
    have hgf : g ≠ f := ((h.store.fresh f hlive).trans_le hg).ne'
    rw [Function.update_of_ne hgf]
    exact h.fresh.frame g hg

theorem drop (h : Inv μ w) (hf : ref f ∈ w.mine)
    (hmine : mine' + {ref f} = w.mine + if w.sys.refs f = 1 then {last f} else 0) :
    Inv μ ⟨{ w.sys with refs := Function.update w.sys.refs f (w.sys.refs f - 1) }, mine',
      w.others⟩ := by
  have hpos : 0 < w.sys.refs f := h.pos hf
  have hlive := h.ref_live hf
  refine h.store_change (u := if w.sys.refs f = 1 then {last f} else 0) (d := {ref f}) h.store
    hmine (add_comm _ _) ?_ ?_ ?_ fun _ _ _ hr ↦ hr
  · intro x
    cases x with
    | ref g =>
      by_cases hg : g = f
      · subst hg
        simp only [Sys.count, Function.update_self, Multiset.count_singleton_self]
        split_ifs <;> simp <;> omega
      · simp only [Sys.count, Function.update_of_ne hg]
        split_ifs <;> simp [hg]
    | last g =>
      by_cases hg : g = f
      · subst hg
        by_cases hone : w.sys.refs g = 1
        · simp [Sys.count, hone, hlive]
        · have : w.sys.refs g - 1 ≠ 0 := by omega
          simp [Sys.count, hone, this, hpos.ne']
      · simp only [Sys.count, Function.update_of_ne hg]
        split_ifs <;> simp [hg]
    | _ => simp only [Sys.count]; split_ifs <;> simp
  · intro g hg
    by_cases hgf : g = f
    · exact hgf ▸ hlive
    · rw [Function.update_of_ne hgf] at hg
      exact h.live g hg
  · intro g hg
    have hgf : g ≠ f := ((h.store.fresh f hlive).trans_le hg).ne'
    rw [Function.update_of_ne hgf]
    exact h.fresh.frame g hg

theorem create (h : Inv μ w) {source : FrameSource} {b : FileId} {offset : ℕ} {shared : Bool}
    {status : Status} {m : FrameStore}
    (heq : w.sys.store.exec (.create source b offset shared) = .ok ((status, f), m))
    (hmine : mine' = w.mine + if status = .ok then {ref f} else 0) :
    Inv μ ⟨{ w.sys with
      store := m
      refs := if status = .ok then Function.update w.sys.refs f 1 else w.sys.refs }, mine',
      w.others⟩ := by
  obtain ⟨hinv, hcreate⟩ := FrameStore.exec_create h.store heq
  by_cases hok : status = .ok
  · rw [if_pos hok] at hcreate hmine ⊢
    obtain ⟨hf, hnext, hframes, hframe⟩ := hcreate
    obtain ⟨hrefs, hmap, hpin, htrans⟩ := h.fresh.frame f hf.ge
    have hnew : f ∉ w.sys.store.frames := fun hmem ↦ (h.store.fresh f hmem).ne hf
    have hother : ∀ g, g ≠ f → m.frame g = w.sys.store.frame g := fun g hg ↦ by
      rw [hframe, Function.update_of_ne hg]
    refine h.store_change (p := 0) (r := {ref f}) (u := {ref f}) (d := 0) hinv
      (by rw [hmine, add_zero]) (by simp) ?_ ?_ ?_ ?_
    · intro x
      cases x with
      | ref g | last g =>
        by_cases hg : g = f
        · subst hg
          simp [Sys.count, hrefs, hnew]
        · simp [Sys.count, hg, hframes]
      | map g | pin g | transient g =>
        by_cases hg : g = f
        · subst hg
          simp [Sys.count, hframe, hmap, hpin, htrans]
        · simp [Sys.count, hother g hg]
      | _ => simp [Sys.count]
    · intro g hg
      rw [hframes]
      by_cases hgf : g = f
      · simp [hgf]
      · rw [Function.update_of_ne hgf] at hg
        exact List.mem_cons_of_mem _ (h.live g hg)
    · intro g hg
      have hgf : g ≠ f := by omega
      rw [hother g hgf, Function.update_of_ne hgf]
      exact h.fresh.frame g (hf ▸ by omega)
    · intro g hg _ hr
      have hgf : g ≠ f := by
        rintro rfl
        omega
      rwa [FrameStore.resident, hother g hgf]
  · rw [if_neg hok] at hcreate hmine ⊢
    obtain ⟨hnext, hframes, hframe⟩ := hcreate
    exact h.quiet_change ⟨hinv, hframes, hnext, fun g ↦ by rw [hframe],
      fun g _ hr ↦ by rwa [FrameStore.resident, hframe]⟩ (by rw [hmine, add_zero])

end Inv

end MiniMM
