import MiniMM.Frame.Traffic

/-!
# Eviction and page-in

The specification of `minimm_frame_page_out_locked`, of the victim scan and of
one pass through the page-in loop: none of them aborts in a well-formed store,
all of them are traffic, and a slot is free after every eviction.
-/

namespace MiniMM

open Gather

namespace FrameStore

variable {m m' : FrameStore} {f g : FrameId}

/-! ## Page out -/

theorem Invariant.residentSlot_lt (h : m.Invariant) (hf : f ∈ m.frames) {slot : ℕ}
    (hslot : (m.frame f).residentSlot = some slot) : slot < m.residentLimit := by
  have hmem : slot ∈ ↑m.freeResidentSlots + m.residentSlots :=
    Multiset.mem_add.2 (Or.inr (mem_gather.2 ⟨f, hf, hslot⟩))
  rw [h.residentSlots] at hmem
  exact Multiset.mem_range.1 hmem

theorem Invariant.residentCount_eq_card (h : m.Invariant) :
    m.residentCount = m.residentSlots.card := by
  have hcard := congrArg Multiset.card h.residentSlots
  rw [Multiset.card_add, Multiset.coe_card, Multiset.card_range] at hcard
  have hcount := h.residentCount
  omega

theorem Invariant.swapSlotCount_eq_card (h : m.Invariant) :
    m.swapSlotCount = m.swapSlots.card := by
  have hcard := congrArg Multiset.card h.swapSlots
  rw [Multiset.card_add, Multiset.coe_card, Multiset.card_map, Multiset.card_range] at hcard
  have hcount := h.swapSlotCount
  omega

theorem Invariant.residentCount_pos (h : m.Invariant) (hf : f ∈ m.frames) {slot : ℕ}
    (hslot : (m.frame f).residentSlot = some slot) : 0 < m.residentCount := by
  rw [h.residentCount_eq_card, Multiset.card_pos_iff_exists_mem]
  exact ⟨slot, mem_gather.2 ⟨f, hf, hslot⟩⟩

theorem Invariant.swapSlotCount_pos (h : m.Invariant) (hf : f ∈ m.frames) {offset : ℕ}
    (hoffset : (m.frame f).swapSlot = some offset) : 0 < m.swapSlotCount := by
  rw [h.swapSlotCount_eq_card, Multiset.card_pos_iff_exists_mem]
  exact ⟨offset, mem_gather.2 ⟨f, hf, hoffset⟩⟩

/-- The store after a live resident frame gave its slot back. -/
def withoutSlot (m : FrameStore) (f : FrameId) (slot : ℕ) : FrameStore :=
  { m with
    frame := Function.update m.frame f { m.frame f with residentSlot := none }
    freeResidentSlots := slot :: m.freeResidentSlots
    residentCount := m.residentCount - 1 }

theorem releaseResidentSlotLocked_eq (h : m.Invariant) (hf : f ∈ m.frames) {slot : ℕ}
    (hslot : (m.frame f).residentSlot = some slot) :
    m.releaseResidentSlotLocked f = .ok (m.withoutSlot f slot) := by
  have hlt := h.residentSlot_lt hf hslot
  have hpos := h.residentCount_pos hf hslot
  have hcount := h.residentCount
  simp only [releaseResidentSlotLocked, hslot]
  rw [if_neg (by omega)]
  rfl

/-- The state `minimm_frame_page_out_locked` ends in once the frame is clean. -/
def pagedOut (m : FrameStore) (f : FrameId) (slot : ℕ) : FrameStore :=
  { (m.withoutSlot f slot).setFrame f { (m.withoutSlot f slot).frame f with cold := false } with
    pageOutCount := counterIncrementSaturating m.pageOutCount }

theorem pagedOut_frame (m : FrameStore) (f : FrameId) (slot : ℕ) :
    (m.pagedOut f slot).frame =
      Function.update m.frame f { m.frame f with residentSlot := none, cold := false } := by
  simp [pagedOut, withoutSlot, setFrame]

theorem traffic_pagedOut (h : m.Invariant) (hf : f ∈ m.frames) {slot : ℕ}
    (hslot : (m.frame f).residentSlot = some slot) (hclean : (m.frame f).dirty = false)
    (hpinned : ¬(m.frame f).Pinned) : Traffic m (m.pagedOut f slot) := by
  have hok := h.frame f hf
  have hpos := h.residentCount_pos hf hslot
  have htrans : (m.frame f).transientPinCount = 0 := by
    by_contra hne
    exact hpinned (Or.inr hne)
  refine Traffic.replace (x := { m.frame f with residentSlot := none, cold := false }) h hf ?_
    ⟨pagedOut_frame m f slot, rfl, rfl, rfl, rfl, rfl, rfl, rfl⟩ ?_ rfl
    (fun hp _ ↦ absurd hp hpinned) ?_ ?_
  · exact ⟨nofun, fun hd ↦ absurd (hclean ▸ hd) (by decide), fun ht ↦ absurd htrans ht,
      fun _ ↦ rfl, hok.shared⟩
  · refine ⟨?_, ?_, rfl, rfl, fun _ hold ↦ hold, ?_, counterIncrementSaturating_le h.pageOut⟩
    · simp only [pagedOut, withoutSlot, setFrame, List.length_cons]
      omega
    · simp [pagedOut, withoutSlot, setFrame, hslot,
        add_comm (m.freeResidentSlots : Multiset ℕ)]
    · exact h.reclaim.trans (le_counterIncrementSaturating _)
  · intro _ g _ hgf
    have hback : (m.pagedOut f slot).backing g = m.backing g := by
      simp only [backing, pagedOut_frame, Function.update_of_ne hgf]
      rfl
    refine ⟨hback, content_congr ?_ (fun _ _ ↦ rfl) hback⟩
    rw [pagedOut_frame, Function.update_of_ne hgf]
  · intro hc
    have hback : (m.pagedOut f slot).backing f = m.backing f := by
      simp only [backing, pagedOut_frame, Function.update_self]
      rfl
    have hcont : (m.pagedOut f slot).content f = (m.pagedOut f slot).backing f := by
      simp [content, pagedOut_frame]
    exact ⟨by rw [hcont, hback, hc f hf hclean], fun _ ↦ hcont.symm⟩

/-- What a page out or a reclaim of one frame does. -/
structure Evicted (m m' : FrameStore) (f : FrameId) (status : Status) : Prop where
  traffic : Traffic m m'
  others : ∀ g, g ≠ f → m'.frame g = m.frame g
  gone : status = .ok → m'.resident f = false
  freeSlot : status = .ok → m.resident f → m'.freeResidentSlots ≠ []

theorem Evicted.of_wroteBack {status : Status} (hwb : WroteBack m m' f status)
    (hne : status ≠ .ok) : Evicted m m' f status :=
  ⟨hwb.traffic, hwb.others, fun hst ↦ absurd hst hne, fun hst ↦ absurd hst hne⟩

theorem pageOutLocked_spec (h : m.Invariant) (hf : f ∈ m.frames) :
    ∃ status m', m.pageOutLocked f = .ok (status, m') ∧ Evicted m m' f status ∧
      (status = .ok → m.resident f →
        m'.pageOutCount = counterIncrementSaturating m.pageOutCount ∧
          m'.reclaimCount = m.reclaimCount) := by
  have hok := h.frame f hf
  unfold pageOutLocked
  dsimp only
  split_ifs with hnone hpin
  · have hres : m.resident f = false := by simp [resident, hnone]
    refine ⟨.ok, _, rfl, ⟨?_, fun g hgf ↦ Function.update_of_ne hgf _ _, fun _ ↦ ?_,
      fun _ hr ↦ absurd hr (by simp [hres])⟩,
      fun _ hr ↦ absurd hr (by simp [hres])⟩
    · refine Traffic.replace (x := { m.frame f with cold := false }) h hf
        (hok.of_eq rfl (fun hcold ↦ absurd hcold Bool.false_ne_true) hok.dirty hok.transient rfl
          hok.shared)
        ⟨rfl, rfl, rfl, rfl, rfl, rfl, rfl, rfl⟩
        (Balanced.of_slots_eq h rfl rfl rfl rfl rfl rfl rfl rfl rfl rfl) rfl (fun _ hr ↦ hr) ?_ ?_
      · intro _ g _ hgf
        simp [setFrame, content, backing, Function.update_of_ne hgf]
      · simp [setFrame, content, backing, hnone]
    · simp [resident, setFrame, hnone]
  · have hbusy : Status.busy ≠ .ok := by decide
    exact ⟨.busy, m, rfl, ⟨Traffic.refl h, fun _ _ ↦ rfl, fun hst ↦ absurd hst hbusy,
      fun hst ↦ absurd hst hbusy⟩, fun hst ↦ absurd hst hbusy⟩
  · have hwb := writeBackLocked_spec h hf
    generalize m.writeBackLocked f = r at hwb
    obtain ⟨status, m1⟩ := r
    dsimp only at hwb
    split
    · rename_i heq
      cases heq
      obtain ⟨slot, hslot⟩ := Option.ne_none_iff_exists'.1 hnone
      have hslot1 : (m1.frame f).residentSlot = some slot := hwb.residentSlot.trans hslot
      have hf1 : f ∈ m1.frames := by rw [hwb.traffic.frames]; exact hf
      have hfree : ¬(m1.frame f).Pinned := by
        rw [hwb.traffic.pinned_iff]
        exact hpin
      rw [releaseResidentSlotLocked_eq hwb.traffic.invariant hf1 hslot1]
      have hout := traffic_pagedOut hwb.traffic.invariant hf1 hslot1 (hwb.clean rfl) hfree
      refine ⟨.ok, m1.pagedOut f slot, rfl, ⟨hwb.traffic.trans hout, fun g hgf ↦ ?_,
        fun _ ↦ ?_, ?_⟩, ?_⟩
      · rw [pagedOut_frame, Function.update_of_ne hgf, hwb.others g hgf]
      · simp [resident, pagedOut_frame]
      · exact fun _ _ ↦ List.cons_ne_nil _ _
      · exact fun _ _ ↦ ⟨congrArg counterIncrementSaturating hwb.pageOutCount, hwb.reclaimCount⟩
    · rename_i hne heq
      cases heq
      exact ⟨status, m1, rfl, .of_wroteBack hwb hne, fun hst ↦ absurd hst hne⟩

theorem reclaimPageLocked_spec (h : m.Invariant) (hf : f ∈ m.frames) :
    ∃ status m', m.reclaimPageLocked f = .ok (status, m') ∧ Evicted m m' f status := by
  obtain ⟨status, m1, heq, hev, hcounts⟩ := pageOutLocked_spec h hf
  unfold reclaimPageLocked
  rw [heq]
  dsimp only [Except.bind, bind]
  split_ifs with hrec
  · obtain ⟨rfl, hres⟩ := hrec
    obtain ⟨hout, hreclaim⟩ := hcounts rfl hres
    have h1 := hev.traffic.invariant
    have hf1 : f ∈ m1.frames := by rw [hev.traffic.frames]; exact hf
    have hok1 := h1.frame f hf1
    have hnone : (m1.frame f).residentSlot = none := by
      simpa [resident] using hev.gone rfl
    refine ⟨.ok, _, rfl, hev.traffic.trans ?_, fun g hgf ↦ ?_, fun _ ↦ ?_,
      fun _ hr ↦ hev.freeSlot rfl hr⟩
    · refine Traffic.replace
        (x := { m1.frame f with cold := false, reclaimPending := true }) h1 hf1
        ⟨nofun, hok1.dirty, hok1.transient, fun _ ↦ hnone, hok1.shared⟩
        ⟨rfl, rfl, rfl, rfl, rfl, rfl, rfl, rfl⟩ ?_ rfl (fun _ hr ↦ hr) ?_ ?_
      · refine ⟨rfl, rfl, rfl, rfl, ?_, ?_, h1.pageOut⟩
        · intro others hold
          simp only [Frame.pending, if_true, opt_some, Multiset.card_singleton,
            counterIncrementSaturating, setFrame] at hold ⊢
          split_ifs <;> omega
        · change counterIncrementSaturating m1.reclaimCount ≤ m1.pageOutCount
          rw [hout, hreclaim]
          exact counterIncrementSaturating_mono h.reclaim h.pageOut
      · intro _ g _ hgf
        simp [setFrame, content, backing, Function.update_of_ne hgf]
      · simp [setFrame, content, backing, hnone]
    · exact (Function.update_of_ne hgf _ _).trans (hev.others g hgf)
    · simp [resident, setFrame, hnone]
  · exact ⟨status, m1, rfl, hev⟩

/-! ## The victim -/

/-- A frame the scan may choose. -/
def Evictable (m : FrameStore) (excluded : Option FrameId) (g : FrameId) : Prop :=
  excluded ≠ some g ∧ m.resident g ∧ ¬(m.frame g).Pinned

theorem victimStep_candidate {excluded : Option FrameId} {acc : VictimScan} {current : FrameId}
    (h : (m.victimStep excluded acc current).candidate = some g) :
    acc.candidate = some g ∨ g = current ∧ m.Evictable excluded g := by
  unfold victimStep at h
  dsimp only at h
  split_ifs at h with hskip hfree
  · exact Or.inl h
  · simp only [Option.some.injEq] at h
    subst h
    push Not at hskip
    refine Or.inr ⟨rfl, hskip.1, ?_, ?_⟩
    · simpa [resident, Option.isSome_iff_ne_none] using hskip.2
    · rintro (hp | ht)
      · exact hp hfree.1
      · exact ht hfree.2.1
  · exact Or.inl h

theorem victimFold_candidate {excluded : Option FrameId} {l : List FrameId} {acc : VictimScan}
    (h : (l.foldl (m.victimStep excluded) acc).candidate = some g) :
    acc.candidate = some g ∨ g ∈ l ∧ m.Evictable excluded g := by
  induction l generalizing acc with
  | nil => exact Or.inl h
  | cons current l ih =>
    rcases ih h with hacc | ⟨hmem, hev⟩
    · rcases victimStep_candidate hacc with hold | ⟨rfl, hev⟩
      · exact Or.inl hold
      · exact Or.inr ⟨List.mem_cons_self, hev⟩
    · exact Or.inr ⟨List.mem_cons_of_mem _ hmem, hev⟩

theorem selectVictimLocked_spec {excluded : Option FrameId}
    (h : (m.selectVictimLocked excluded).1 = some g) :
    g ∈ m.frames ∧ m.Evictable excluded g := by
  rcases victimFold_candidate h with hnone | hsome
  · cases hnone
  · exact hsome

theorem traffic_selectVictimLocked (h : m.Invariant) (excluded : Option FrameId) :
    Traffic m (m.selectVictimLocked excluded).2.2 :=
  Traffic.bookkeeping h m.host _ m.transientWaiterCount

/-! ## Page in -/

theorem readPage_eq_some {host : Host} {bytes : ByteFile.Bytes} {offset : ℕ} {data : Page}
    (h : (readPage host bytes offset).1 = some data) :
    data = ByteFile.readAt pageSize bytes offset := by
  unfold readPage at h
  split_ifs at h
  dsimp only at h
  split_ifs at h
  exact (Option.some.inj h).symm

theorem readBackingLocked_spec (h : m.Invariant) (f : FrameId) :
    Traffic m (m.readBackingLocked f).2 ∧
      (m.readBackingLocked f).2.frame = m.frame ∧
      ∀ data, (m.readBackingLocked f).1 = some data → data = m.backing f := by
  unfold readBackingLocked
  dsimp only
  split
  · rename_i offset hoffset
    refine ⟨Traffic.bookkeeping h _ _ _, rfl, fun data hdata ↦ ?_⟩
    rw [readPage_eq_some hdata, backing_of_swapSlot hoffset]
  · rename_i hnone
    split_ifs with hfile
    · refine ⟨Traffic.bookkeeping h _ _ _, rfl, fun data hdata ↦ ?_⟩
      rw [readPage_eq_some hdata]
      simp [backing, hnone, hfile]
    · refine ⟨Traffic.refl h, rfl, fun data hdata ↦ ?_⟩
      rw [← Option.some.inj hdata]
      simp [backing, hnone, hfile]

theorem traffic_touchLocked (h : m.Invariant) (hf : f ∈ m.frames) :
    Traffic m (m.touchLocked f) := by
  have hok := h.frame f hf
  refine Traffic.replace
    (x := { m.frame f with cold := false, lastAccess := (m.clock + 1) % 2 ^ 64 }) h hf
    (hok.of_eq rfl nofun hok.dirty hok.transient rfl hok.shared)
    ⟨rfl, rfl, rfl, rfl, rfl, rfl, rfl, rfl⟩
    (Balanced.of_slots_eq h rfl rfl rfl rfl rfl rfl rfl rfl rfl rfl) rfl (fun _ hr ↦ hr) ?_ ?_
  · intro _ g _ hgf
    simp [touchLocked, setFrame, content, backing, Function.update_of_ne hgf]
  · intro hc
    simpa [touchLocked, setFrame, content, backing] using hc f hf

/-- What one pass of the page-in loop does. -/
structure PagedIn (m m' : FrameStore) (f : FrameId) (result : PageIn) : Prop where
  traffic : Traffic m m'
  resident : ∀ pagedIn, result = .resident pagedIn → m'.resident f
  slot : result ≠ .noFreeSlot
  failed : ∀ status, result = .failed status → status ≠ .ok
  waiting : result = .waiting → m'.hasTransientVictimLocked f

/-- The page staged before some traffic goes into a slot that is free after it. -/
theorem installLocked_spec {m0 : FrameStore} {data : Page} (h0 : Traffic m0 m)
    (hf : f ∈ m.frames) (hnone : (m.frame f).residentSlot = none)
    (hfree : m.freeResidentSlots ≠ [])
    (hdata : m0.FilesApart → m0.Coherent → data = m.content f) :
    PagedIn m0 (m.installLocked f data).2 f (m.installLocked f data).1 := by
  have h := h0.invariant
  have hok := h.frame f hf
  unfold installLocked
  cases hslots : m.freeResidentSlots with
  | nil => exact absurd hslots hfree
  | cons slot slots =>
    dsimp only
    refine ⟨?_, fun _ _ ↦ by simp [resident], nofun, nofun, nofun⟩
    refine h0.then_replace (x := { m.frame f with
        lastAccess := (m.clock + 1) % 2 ^ 64
        residentSlot := some slot
        cold := false
        reclaimPending := false }) hf
      ⟨nofun, fun _ ↦ rfl, fun _ ↦ rfl, nofun, hok.shared⟩
      ⟨rfl, rfl, rfl, rfl, rfl, rfl, rfl, rfl⟩ ?_ rfl (fun _ _ ↦ rfl) ?_ ?_
    · refine ⟨?_, ?_, rfl, rfl, ?_, h.reclaim, h.pageOut⟩
      · simp only [hslots, List.length_cons]
        omega
      · simp [hslots, hnone, add_comm (slots : Multiset ℕ)]
      · intro others hold
        cases hpend : (m.frame f).reclaimPending <;>
          simp only [Frame.pending, hpend, counterIncrementSaturating] at hold ⊢ <;>
          simp at hold ⊢
        · omega
        · split_ifs <;> omega
    · intro _ g hg hgf
      have hother : (m.frame g).residentSlot ≠ some slot :=
        h.residentSlot_ne_free hg (by simp [hslots])
      refine ⟨by simp [backing, Function.update_of_ne hgf], ?_⟩
      simp only [content, backing, Function.update_of_ne hgf]
      split
      · rename_i slot' hslot'
        have hne : slot' ≠ slot := fun heq ↦ hother (heq ▸ hslot')
        rw [Function.update_of_ne hne]
      · rfl
    · intro ha hc _
      have hcont : m.content f = m.backing f := content_of_not_resident hnone
      obtain rfl : data = m.backing f := (hdata ha hc).trans hcont
      rw [hcont]
      exact ⟨by simp [content], fun _ ↦ by simp [content, backing]⟩

theorem makeResidentLocked_spec (h : m.Invariant) (hf : f ∈ m.frames) :
    (∃ result m', m.makeResidentLocked f = .ok (result, m') ∧ PagedIn m m' f result) ∨
      m.makeResidentLocked f = .error .waiterCount := by
  unfold makeResidentLocked
  by_cases hres : m.resident f = true
  · rw [if_pos hres]
    refine Or.inl ⟨_, _, rfl, traffic_touchLocked h hf, fun _ _ ↦ ?_, nofun, nofun, nofun⟩
    simpa [touchLocked, setFrame, FrameStore.resident] using hres
  rw [if_neg hres]
  have hnone : (m.frame f).residentSlot = none := by simpa [resident] using hres
  obtain ⟨hread, hframe, hdata⟩ := readBackingLocked_spec h f
  generalize m.readBackingLocked f = r at *
  obtain ⟨staged, m1⟩ := r
  dsimp only at hread hframe hdata ⊢
  cases staged with
  | none => exact Or.inl ⟨_, _, rfl, hread, nofun, nofun, by simp, nofun⟩
  | some data =>
    have hf1 : f ∈ m1.frames := by rw [hread.frames]; exact hf
    have hnone1 : (m1.frame f).residentSlot = none := by rw [hframe]; exact hnone
    have hstaged : data = m.content f := by
      rw [hdata data rfl, content_of_not_resident hnone]
    dsimp only
    split_ifs with hfull
    · have hscan := traffic_selectVictimLocked hread.invariant (some f)
      have hvictim : ∀ g, (m1.selectVictimLocked (some f)).1 = some g →
          g ∈ m1.frames ∧ m1.Evictable (some f) g := fun _ ↦ selectVictimLocked_spec
      have hframe2 : (m1.selectVictimLocked (some f)).2.2.frame = m1.frame := rfl
      generalize m1.selectVictimLocked (some f) = r at *
      obtain ⟨candidate, scanned, m2⟩ := r
      dsimp only at hscan hvictim hframe2 ⊢
      have htraffic := hread.trans hscan
      cases candidate with
      | none =>
        dsimp only
        split_ifs with htransient hwaiters
        · exact Or.inl ⟨_, _, rfl, htraffic, nofun, nofun, by simp, nofun⟩
        · exact Or.inr rfl
        · refine Or.inl ⟨_, _, rfl, htraffic.trans (Traffic.bookkeeping hscan.invariant _ _ _),
            nofun, nofun, nofun, fun _ ↦ ?_⟩
          change m2.hasTransientVictimLocked f = true
          simpa using htransient
      | some victim =>
        obtain ⟨hmem, hev⟩ := hvictim victim rfl
        have hne : f ≠ victim := fun heq ↦ hev.1 (heq ▸ rfl)
        obtain ⟨status, m3, heq, hevicted⟩ :=
          reclaimPageLocked_spec hscan.invariant (hscan.frames ▸ hmem)
        have htraffic3 := htraffic.trans hevicted.traffic
        dsimp only
        rw [heq]
        dsimp only [Except.bind, bind]
        left
        split_ifs with hst
        · refine ⟨_, _, rfl, installLocked_spec htraffic3 ?_ ?_ ?_ fun ha hc ↦ ?_⟩
          · rw [htraffic3.frames]
            exact hf
          · rw [hevicted.others f hne, hframe2]
            exact hnone1
          · refine hevicted.freeSlot hst ?_
            rw [resident, hframe2]
            exact hev.2.1
          · rw [(htraffic3.content ha hc).2 f hf, hstaged]
        · exact ⟨_, _, rfl, htraffic3, nofun, nofun,
            fun s hs ↦ by cases hs; exact hst, nofun⟩
    · refine Or.inl ⟨_, _, rfl, installLocked_spec hread hf1 hnone1 ?_ fun ha hc ↦ ?_⟩
      · have hcount := hread.invariant.residentCount
        intro hnil
        rw [hnil, List.length_nil] at hcount
        omega
      · rw [(hread.content ha hc).2 f hf, hstaged]

end FrameStore

end MiniMM
