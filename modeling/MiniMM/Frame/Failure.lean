import MiniMM.Frame.Latch
import MiniMM.Frame.Reclaim

/-!
# A page-in that fails

A pass of the page-in loop that ends in an error has moved no page.  What it may
leave behind is an error latched in the file of the victim and a swap slot
attached to it.
-/

namespace MiniMM

namespace FrameStore

/-- The status `minimm_frame_make_resident_locked` returns at the end of a pass
that does not wait. -/
def PageIn.status : PageIn → Option Status
  | .resident _ => some .ok
  | .failed status => some status
  | .noFreeSlot => some .busy
  | .waiting => none

variable {m m' m'' : FrameStore} {f g : FrameId} {status : Status}

/-- `m'` is `m` but for what a write back of `victim` that failed leaves behind. -/
structure Stalled (m m' : FrameStore) (victim : Option FrameId) : Prop where
  frames : m'.frames = m.frames
  frame : ∀ g, m'.frame g = { m.frame g with swapSlot := (m'.frame g).swapSlot }
  swapSlot : ∀ g, (m'.frame g).swapSlot = (m.frame g).swapSlot ∨
    victim = some g ∧ (m.frame g).swapSlot = none
  freeResidentSlots : m'.freeResidentSlots = m.freeResidentSlots
  residentArena : m'.residentArena = m.residentArena
  residentCount : m'.residentCount = m.residentCount
  clock : m'.clock = m.clock
  pageInCount : m'.pageInCount = m.pageInCount
  pageOutCount : m'.pageOutCount = m.pageOutCount
  reclaimCount : m'.reclaimCount = m.reclaimCount
  refaultCount : m'.refaultCount = m.refaultCount
  writebackError : ∀ b, (m'.file b).writebackError = (m.file b).writebackError ∨
    ∃ v, victim = some v ∧ (m.frame v).source = .file ∧ (m.frame v).fileBacking = b
  content : m.FilesApart → ∀ g ∈ m.frames, m'.content g = m.content g

namespace Stalled

theorem refl (m : FrameStore) (victim : Option FrameId) : Stalled m m victim where
  frames := rfl
  frame := fun _ ↦ rfl
  swapSlot := fun _ ↦ Or.inl rfl
  freeResidentSlots := rfl
  residentArena := rfl
  residentCount := rfl
  clock := rfl
  pageInCount := rfl
  pageOutCount := rfl
  reclaimCount := rfl
  refaultCount := rfl
  writebackError := fun _ ↦ Or.inl rfl
  content := fun _ _ _ ↦ rfl

theorem congr {victim : Option FrameId} {host : Host} {scans : ℕ}
    (h : Stalled { m with host := host, reclaimScanCount := scans } m' victim) :
    Stalled m m' victim :=
  ⟨h.frames, h.frame, h.swapSlot, h.freeResidentSlots, h.residentArena, h.residentCount, h.clock,
    h.pageInCount, h.pageOutCount, h.reclaimCount, h.refaultCount, h.writebackError, h.content⟩

end Stalled

/-! ## Write back -/

theorem stalled_writeBackFileLocked (hf : f ∈ m.frames) {slot : ℕ}
    (hslot : (m.frame f).residentSlot = some slot) (hsource : (m.frame f).source = .file)
    (hne : (m.writeBackFileLocked f (m.residentArena slot)).1 ≠ .ok) :
    Stalled m (m.writeBackFileLocked f (m.residentArena slot)).2 (some f) := by
  have hwrite := (writePage_spec m.host (m.file (m.frame f).fileBacking).bytes
    (m.frame f).fileOffset (m.residentArena slot)).1
  unfold writeBackFileLocked at hne ⊢
  dsimp only at hne ⊢
  split_ifs at hne ⊢ with herror hst
  · exact .refl m _
  · exact absurd hst hne
  · refine ⟨rfl, fun _ ↦ rfl, fun _ ↦ Or.inl rfl, rfl, rfl, rfl, rfl, rfl, rfl, rfl, rfl, ?_, ?_⟩
    · intro b
      by_cases hb : (m.frame f).fileBacking = b
      · exact Or.inr ⟨f, rfl, hsource, hb⟩
      · exact Or.inl (congrArg FileBacking.writebackError (Function.update_of_ne (Ne.symm hb) _ _))
    · intro ha g hg
      by_cases hgf : g = f
      · subst hgf
        simp [content, hslot]
      · refine content_congr ?_ ?_ (backing_storeFile ha hf hg hgf hsource ?_ ?_ ?_ rfl)
        · rfl
        · exact fun _ _ ↦ rfl
        · rw [FileBacking.latchError_bytes]
          exact hwrite
        · rfl
        · rfl

theorem stalled_acquireSwapSlotLocked (hf : f ∈ m.frames) {slot : ℕ}
    (hslot : (m.frame f).residentSlot = some slot) :
    Stalled m (m.acquireSwapSlotLocked f).2 (some f) := by
  have hattach : ∀ {m' : FrameStore} {offset : ℕ}, (m.frame f).swapSlot = none →
      m'.frame = Function.update m.frame f { m.frame f with swapSlot := some offset } →
      m'.frames = m.frames ∧ m'.freeResidentSlots = m.freeResidentSlots ∧
        m'.residentArena = m.residentArena ∧ m'.residentCount = m.residentCount ∧
        m'.clock = m.clock ∧ m'.pageInCount = m.pageInCount ∧ m'.pageOutCount = m.pageOutCount ∧
        m'.reclaimCount = m.reclaimCount ∧ m'.refaultCount = m.refaultCount ∧ m'.file = m.file ∧
        m'.swap = m.swap → Stalled m m' (some f) := by
    rintro m' offset hnone hframe ⟨hframes, hfree, harena, hcount, hclock, hin, hout, hrec, href,
      hfile, hswap⟩
    have hother : ∀ g, g ≠ f → m'.frame g = m.frame g := by
      intro g hgf
      rw [hframe, Function.update_of_ne hgf]
    refine ⟨hframes, fun g ↦ ?_, fun g ↦ ?_, hfree, harena, hcount, hclock, hin, hout, hrec, href,
      fun b ↦ Or.inl (by rw [hfile]), fun _ g _ ↦ ?_⟩
    · by_cases hgf : g = f
      · subst hgf
        simp [hframe]
      · rw [hother g hgf]
    · by_cases hgf : g = f
      · subst hgf
        exact Or.inr ⟨rfl, hnone⟩
      · exact Or.inl (by rw [hother g hgf])
    · by_cases hgf : g = f
      · subst hgf
        simp [content, hframe, hslot, harena]
      · apply content_congr (hother g hgf) (fun _ _ ↦ by rw [harena])
        simp only [backing, hother g hgf, hswap, hfile]
  unfold acquireSwapSlotLocked
  dsimp only
  split
  · exact .refl m _
  · rename_i hnone _
    exact hattach hnone rfl ⟨rfl, rfl, rfl, rfl, rfl, rfl, rfl, rfl, rfl, rfl, rfl⟩
  · rename_i hnone _
    split_ifs
    · exact .refl m _
    · split
      · exact (Stalled.refl _ _).congr
      · exact hattach hnone rfl ⟨rfl, rfl, rfl, rfl, rfl, rfl, rfl, rfl, rfl, rfl, rfl⟩

theorem stalled_writeBackSwapLocked (h : m.Invariant) (hf : f ∈ m.frames) {slot : ℕ}
    (hslot : (m.frame f).residentSlot = some slot) (hdirty : (m.frame f).dirty = true)
    (hshared : ¬((m.frame f).source = .file ∧ (m.frame f).fileShared = true))
    (hne : (m.writeBackSwapLocked f (m.residentArena slot)).1 ≠ .ok) :
    Stalled m (m.writeBackSwapLocked f (m.residentArena slot)).2 (some f) := by
  have hacquire := stalled_acquireSwapSlotLocked hf hslot
  obtain ⟨htraffic, -, -, -, s, hframe, hs⟩ :=
    acquireSwapSlotLocked_spec h hf hslot hdirty hshared
  unfold writeBackSwapLocked at hne ⊢
  generalize m.acquireSwapSlotLocked f = r at *
  obtain ⟨status, m1⟩ := r
  dsimp only at hacquire htraffic hframe hs
  split at hne
  · rename_i m2 heq
    cases heq
    obtain ⟨offset, rfl⟩ := Option.isSome_iff_exists.1 (hs rfl)
    have hoffset : (m1.frame f).swapSlot = some offset := by simp [hframe]
    have hget : (m1.frame f).swapSlot.getD 0 = offset := by rw [hoffset]; rfl
    have hwrite := (writePage_spec m1.host m1.swap offset (m.residentArena slot)).1
    dsimp only at hne ⊢
    rw [hget] at hne ⊢
    rw [if_neg hne]
    refine ⟨hacquire.frames, hacquire.frame, hacquire.swapSlot, hacquire.freeResidentSlots,
      hacquire.residentArena, hacquire.residentCount, hacquire.clock, hacquire.pageInCount,
      hacquire.pageOutCount, hacquire.reclaimCount, hacquire.refaultCount,
      hacquire.writebackError, fun ha g hg ↦ ?_⟩
    rw [← hacquire.content ha g hg]
    have hf1 : f ∈ m1.frames := by rw [hacquire.frames]; exact hf
    have hg1 : g ∈ m1.frames := by rw [hacquire.frames]; exact hg
    by_cases hgf : g = f
    · subst hgf
      simp [content, hframe, hslot]
    · refine content_congr ?_ ?_
        (backing_storeSwap htraffic.invariant hf1 hg1 hgf hoffset hwrite ?_ ?_ ?_)
      · rfl
      · exact fun _ _ ↦ rfl
      · rfl
      · rfl
      · rfl
  · rename_i heq
    cases heq
    exact hacquire

theorem stalled_writeBackLocked (h : m.Invariant) (hf : f ∈ m.frames)
    (hne : (m.writeBackLocked f).1 ≠ .ok) : Stalled m (m.writeBackLocked f).2 (some f) := by
  unfold writeBackLocked at hne ⊢
  dsimp only at hne ⊢
  split at hne
  · rename_i slot hdirty hslot
    split_ifs at hne with hfile
    · rw [if_pos hfile]
      exact stalled_writeBackFileLocked hf hslot hfile.1 hne
    · rw [if_neg hfile]
      exact stalled_writeBackSwapLocked h hf hslot hdirty hfile hne
  · exact absurd rfl hne

/-! ## Page in -/

theorem reclaimPageLocked_failed (h : m.Invariant) (hf : f ∈ m.frames)
    (hev : m.evictable f = true) (heq : m.reclaimPageLocked f = .ok (status, m'))
    (hne : status ≠ .ok) : m.writeBackLocked f = (status, m') := by
  obtain ⟨-, hres, hfree⟩ := (evictable_iff m none f).mpr ⟨nofun, hev⟩
  obtain ⟨slot, hslot⟩ := Option.isSome_iff_exists.mp hres
  have hpin : ¬((m.frame f).pinCount ≠ 0 ∨ (m.frame f).transientPinCount ≠ 0) := hfree
  have hwb := writeBackLocked_spec h hf
  unfold reclaimPageLocked pageOutLocked at heq
  dsimp only at heq
  rw [if_neg (by simp [hslot]), if_neg hpin] at heq
  generalize m.writeBackLocked f = r at *
  obtain ⟨st, m1⟩ := r
  dsimp only at hwb
  by_cases hst : st = .ok
  · subst hst
    have hf1 : f ∈ m1.frames := by rw [hwb.traffic.frames]; exact hf
    dsimp only at heq
    rw [releaseResidentSlotLocked_eq hwb.traffic.invariant hf1 (hwb.residentSlot.trans hslot)]
      at heq
    dsimp only [Except.bind, bind, pure, Except.pure] at heq
    rw [if_pos ⟨rfl, hres⟩] at heq
    cases heq
    exact absurd rfl hne
  · split at heq
    · rename_i hok
      cases hok
      exact absurd rfl hst
    · rename_i hok
      cases hok
      dsimp only [Except.bind, bind] at heq
      rw [if_neg (by simp [hst])] at heq
      cases heq
      rfl

/-- How a pass of the page-in loop comes to fail: it cannot read the page, it
finds nothing to evict, or it cannot write the victim back. -/
theorem makeResidentLocked_failed (h : m.Invariant) (hnone : m.resident f = false)
    (heq : m.makeResidentLocked f = .ok (.failed status, m')) :
    ((m.readBackingLocked f).1 = none ∧ status = .io ∧ Stalled m m' none) ∨
    m.residentLimit ≤ m.residentCount ∧
      ((m.selectVictimLocked (some f)).1 = none ∧ m.hasTransientVictimLocked f = false ∧
          status = .busy ∧ Stalled m m' none ∨
        ∃ (victim : FrameId) (m1 : FrameStore), (m.selectVictimLocked (some f)).1 = some victim ∧
          victim ∈ m.frames ∧ m1.file = m.file ∧ m1.frame = m.frame ∧
          (m1.writeBackLocked victim).1 = status ∧ status ≠ .ok ∧ Stalled m m' (some victim)) := by
  have hhost := readBackingLocked_host m f
  obtain ⟨hread, -, -⟩ := readBackingLocked_spec h f
  unfold makeResidentLocked at heq
  rw [if_neg (by simp [hnone])] at heq
  generalize m.readBackingLocked f = r at *
  obtain ⟨staged, m1⟩ := r
  dsimp only at hhost hread heq
  cases staged with
  | none =>
    cases heq
    refine Or.inl ⟨rfl, rfl, ?_⟩
    rw [hhost]
    exact (Stalled.refl _ _).congr
  | some data =>
    right
    dsimp only at heq
    split_ifs at heq with hfull
    swap
    · unfold installLocked at heq
      split at heq <;> cases heq
    refine ⟨by rw [hhost] at hfull; exact hfull, ?_⟩
    have hscan := traffic_selectVictimLocked hread.invariant (some f)
    have hvictim : ∀ g, (m1.selectVictimLocked (some f)).1 = some g →
        g ∈ m1.frames ∧ m1.Evictable (some f) g := fun _ ↦ selectVictimLocked_spec
    have hsame : ∃ scans, (m1.selectVictimLocked (some f)).2.2 =
        { m with host := m1.host, reclaimScanCount := scans } := by
      refine ⟨(m1.selectVictimLocked (some f)).2.2.reclaimScanCount, ?_⟩
      rw [hhost]
      rfl
    have hselect : (m.selectVictimLocked (some f)).1 = (m1.selectVictimLocked (some f)).1 := by
      rw [selectVictimLocked_eq, selectVictimLocked_eq, hhost]
      rfl
    rw [hselect]
    generalize m1.selectVictimLocked (some f) = v at *
    obtain ⟨candidate, scanned, m2⟩ := v
    obtain ⟨scans, hsame⟩ := hsame
    dsimp only at hscan hvictim hsame hselect heq ⊢
    cases candidate with
    | none =>
      left
      dsimp only at heq
      have hwaits : m2.hasTransientVictimLocked f = m.hasTransientVictimLocked f := by
        rw [hsame]
        rfl
      split_ifs at heq with htransient
      · cases heq
        refine ⟨rfl, by simpa [hwaits] using htransient, rfl, ?_⟩
        rw [hsame]
        exact (Stalled.refl _ _).congr
      · cases heq
    | some victim =>
      right
      obtain ⟨hmem, hev⟩ := hvictim victim rfl
      have hmem2 : victim ∈ m2.frames := hscan.frames ▸ hmem
      have hev2 : m2.evictable victim = true := by
        have := ((evictable_iff m1 (some f) victim).mp hev).2
        rw [hhost] at this
        rw [hsame]
        exact this
      obtain ⟨st, m3, hreclaim, -⟩ := reclaimPageLocked_spec hscan.invariant hmem2
      dsimp only at heq
      rw [hreclaim] at heq
      dsimp only [Except.bind, bind] at heq
      split_ifs at heq with hst
      · unfold installLocked at heq
        split at heq <;> cases heq
      · cases heq
        have hwb := reclaimPageLocked_failed hscan.invariant hmem2 hev2 hreclaim hst
        have hstalled := stalled_writeBackLocked hscan.invariant hmem2 (by rw [hwb]; exact hst)
        rw [hwb] at hstalled
        refine ⟨victim, m2, rfl, by rw [hhost] at hmem; exact hmem, by rw [hsame],
          by rw [hsame], by rw [hwb], hst, ?_⟩
        rw [hsame] at hstalled
        exact hstalled.congr

theorem makeResidentLocked_busy (hnone : m.resident f = false)
    (hread : (m.readBackingLocked f).1 ≠ none) (hfull : m.residentLimit ≤ m.residentCount)
    (hvictim : (m.selectVictimLocked (some f)).1 = none)
    (hwaits : m.hasTransientVictimLocked f = false) :
    ∃ m', m.makeResidentLocked f = .ok (.failed .busy, m') := by
  have hhost := readBackingLocked_host m f
  unfold makeResidentLocked
  rw [if_neg (by simp [hnone])]
  generalize m.readBackingLocked f = r at hread hhost ⊢
  obtain ⟨staged, m1⟩ := r
  dsimp only at hhost
  cases staged with
  | none => exact absurd rfl hread
  | some data =>
    have hselect : (m1.selectVictimLocked (some f)).1 = none := by
      rw [← hvictim, selectVictimLocked_eq, selectVictimLocked_eq, hhost]
      rfl
    have hwaits1 : (m1.selectVictimLocked (some f)).2.2.hasTransientVictimLocked f = false := by
      rw [← hwaits, hhost]
      rfl
    dsimp only
    rw [if_pos (by rw [hhost]; exact hfull)]
    generalize m1.selectVictimLocked (some f) = v at hselect hwaits1 ⊢
    obtain ⟨candidate, scanned, m2⟩ := v
    dsimp only at hselect hwaits1
    subst hselect
    dsimp only
    rw [if_pos (by simp [hwaits1])]
    exact ⟨m2, rfl⟩

/-! ## Latched errors -/

/-- No file has latched the status that stands for a store without victims. -/
def NeverBusy (m : FrameStore) : Prop := ∀ b, (m.file b).writebackError ≠ .busy

theorem NeverBusy.latches (h : m.NeverBusy) (hlatches : Latches m m') : m'.NeverBusy := by
  intro b
  rcases hlatches b with hsame | ⟨-, e, he⟩
  · rw [hsame]
    exact h b
  · rw [he]
    cases e <;> nofun

theorem writeBackLocked_ne_busy (h : m.NeverBusy) (f : FrameId) :
    (m.writeBackLocked f).1 ≠ .busy := by
  obtain ⟨hlatches, hown | ⟨b, hb⟩⟩ := writeBackLocked_latches m f
  · intro hbusy
    rw [hbusy] at hown
    cases hown
  · rw [← hb]
    exact h.latches hlatches b

/-! ## In every reachable store -/

/-- The states reached from a store over files without an error. -/
inductive OpenReachable : FrameStore → Prop where
  | create (host : Host) (file : FileId → FileBacking) (residentLimit : ℕ) :
      (∀ b, (file b).writebackError = .ok) → OpenReachable (create host file residentLimit)
  | step {m m' : FrameStore} {α : Type} {o : Op α} {r : α} : OpenReachable m → o.Live m →
      m.exec o = .ok (r, m') → OpenReachable m'

theorem OpenReachable.reachable (h : OpenReachable m) : AnyReachable m := by
  induction h with
  | create host file residentLimit _ => exact .create host file residentLimit
  | step _ hl heq ih => exact .step ih trivial hl heq trivial

theorem OpenReachable.neverBusy (h : OpenReachable m) : m.NeverBusy := by
  induction h with
  | create host file residentLimit hfile =>
    intro b
    change (file b).writebackError ≠ .busy
    rw [hfile b]
    nofun
  | step _ _ heq ih => exact ih.latches (exec_latches heq)

theorem Stalled.mono (h : Stalled m m' none) (victim : Option FrameId) : Stalled m m' victim :=
  { h with
    swapSlot := fun g ↦ Or.inl ((h.swapSlot g).resolve_right nofun)
    writebackError := fun b ↦ Or.inl ((h.writebackError b).resolve_right nofun) }

/-- Without transient pins the scan finds nothing exactly when all is pinned. -/
theorem selectVictimLocked_eq_none_iff
    (htransient : ∀ g ∈ m.frames, (m.frame g).transientPinCount = 0) :
    (m.selectVictimLocked (some f)).1 = none ↔
      ∀ g ∈ m.frames, g ≠ f → m.resident g = true → (m.frame g).pinCount ≠ 0 := by
  rw [selectVictimLocked_eq, List.head?_eq_none_iff, List.filter_eq_nil_iff]
  constructor
  · intro h g hg hgf hres hpin
    apply h g
    · rw [evictionOrder, Select.mem_byKey, List.mem_filter]
      exact ⟨hg, by simp [evictable, hres, hpin, htransient g hg]⟩
    · simpa using Ne.symm hgf
  · intro h g hg hgf
    rw [evictionOrder, Select.mem_byKey, List.mem_filter] at hg
    have hpin : (m.frame g).pinCount = 0 := by
      have := hg.2
      simp only [evictable, Bool.and_eq_true, beq_iff_eq] at this
      exact this.1.2
    have hne : g ≠ f := fun heq ↦ by simp [heq] at hgf
    exact h g hg.1 hne (resident_of_evictable hg.2) hpin

/-- A page-in that fails leaves the frames as they were, but for a swap slot that its victim may
have got. Without transient pins it finds the store busy only if no frame but its own can go. -/
theorem reachable_pageIn_failed (h : OpenReachable m) (hf : f ∈ m.frames) :
    (∀ result m' status, m.makeResidentLocked f = .ok (result, m') →
      result.status = some status → status ≠ .ok →
      Stalled m m' (m.selectVictimLocked (some f)).1) ∧
    (m.resident f = false → (m.readBackingLocked f).1 ≠ none →
      (∀ g ∈ m.frames, (m.frame g).transientPinCount = 0) →
      ((∃ result m', m.makeResidentLocked f = .ok (result, m') ∧ result.status = some .busy) ↔
        m.residentLimit ≤ m.residentCount ∧
          ∀ g ∈ m.frames, g ≠ f → m.resident g = true → (m.frame g).pinCount ≠ 0)) := by
  have hinv := h.reachable.invariant
  -- A pass that ends with an error status has failed, and the frame was not resident.
  have hfailed : ∀ {result m' status}, m.makeResidentLocked f = .ok (result, m') →
      result.status = some status → status ≠ .ok →
      result = .failed status ∧ m.resident f = false := by
    intro result m' status heq hst hne
    constructor
    · rcases makeResidentLocked_spec hinv hf with ⟨result', m1, heq', hin⟩ | herr
      · cases heq.symm.trans heq'
        cases result with
        | resident pagedIn =>
          cases hst
          exact absurd rfl hne
        | failed st =>
          cases hst
          rfl
        | noFreeSlot => exact absurd rfl hin.slot
        | waiting => cases hst
      · cases heq.symm.trans herr
    · by_contra hres
      rw [Bool.not_eq_false] at hres
      rw [makeResidentLocked, if_pos hres] at heq
      cases heq
      cases hst
      exact hne rfl
  refine ⟨fun result m' status heq hst hne ↦ ?_, fun hnone hread htransient ↦ ?_⟩
  · obtain ⟨rfl, hnone⟩ := hfailed heq hst hne
    rcases makeResidentLocked_failed hinv hnone heq with
      ⟨-, -, hstall⟩ | ⟨-, ⟨-, -, -, hstall⟩ | ⟨victim, m1, hvictim, -, -, -, -, -, hstall⟩⟩
    · exact hstall.mono _
    · exact hstall.mono _
    · rw [hvictim]
      exact hstall
  · rw [← selectVictimLocked_eq_none_iff htransient]
    constructor
    · rintro ⟨result, m', heq, hst⟩
      obtain ⟨rfl, -⟩ := hfailed heq hst (by decide)
      rcases makeResidentLocked_failed hinv hnone heq with
        ⟨hfail, -⟩ | ⟨hfull, ⟨hvictim, -⟩ | ⟨victim, m1, -, -, hfile, -, hbusy, -, -⟩⟩
      · exact absurd hfail hread
      · exact ⟨hfull, hvictim⟩
      · -- A latched error would have to be `BUSY`, which no write ever is.
        exact absurd hbusy (writeBackLocked_ne_busy (h.neverBusy.latches (.of_file hfile)) victim)
    · rintro ⟨hfull, hvictim⟩
      have hwaits : m.hasTransientVictimLocked f = false := by
        rw [hasTransientVictimLocked, List.any_eq_false]
        intro g hg
        simp [htransient g hg]
      obtain ⟨m', heq⟩ := makeResidentLocked_busy hnone hread hfull hvictim hwaits
      exact ⟨_, m', heq, rfl⟩

/-- A store with room for one frame, and a host whose page writes stop after the
first byte. -/
def brittle : FrameStore :=
  create { Host.reliable with pageWrite := fun _ ↦ some 1 } (fun _ ↦ ⟨fun _ ↦ 0, .ok⟩) 1

/-- Frames of the first page of a file and of the one at an offset, of which the first has been
written to, and a third frame. -/
def filePair (offset : ℕ) : FrameStore :=
  let m := (brittle.createFrame .file 0 0 true).2.2
  let m := (m.createFrame .file 0 offset true).2.2
  let m := (m.createFrame .zero 0 0 false).2.2
  match m.exec (.request 1 (.write 0 [7]) false) with
  | .ok (_, m) => m
  | .error _ => m

theorem filePair_reachable (offset : ℕ) : OpenReachable (filePair offset) := by
  have h0 : OpenReachable brittle := .create _ _ _ fun _ ↦ rfl
  have h1 : OpenReachable (brittle.createFrame .file 0 0 true).2.2 :=
    h0.step (o := .create .file 0 0 true) nofun rfl
  have h2 : OpenReachable ((brittle.createFrame .file 0 0 true).2.2.createFrame
      .file 0 offset true).2.2 := h1.step (o := .create .file 0 offset true) nofun rfl
  have h3 : OpenReachable (((brittle.createFrame .file 0 0 true).2.2.createFrame
      .file 0 offset true).2.2.createFrame .zero 0 0 false).2.2 :=
    h2.step (o := .create .zero 0 0 false) nofun rfl
  refine h3.step (o := .request 1 (.write 0 [7]) false) ?_ rfl
  rintro f ⟨⟩
  exact List.mem_cons_of_mem _ (List.mem_cons_of_mem _ (List.mem_singleton_self 1))

/-- Two frames of the same file page. -/
def aliased : FrameStore := filePair 0

theorem aliased_reachable : OpenReachable aliased := filePair_reachable 0

/-- The page-in of the third frame fails, and changes what the second one holds. -/
theorem pageIn_failed_aliased : OpenReachable aliased ∧ ∃ m', aliased.makeResidentLocked 3 =
    .ok (.failed .io, m') ∧ aliased.content 2 ⟨0, by decide⟩ = 0 ∧
      m'.content 2 ⟨0, by decide⟩ = 7 :=
  ⟨aliased_reachable, _, rfl, rfl, rfl⟩

theorem filesApart_filePair : (filePair pageSize).FilesApart := by
  unfold FilesApart ByteFile.Apart
  decide +kernel

/-- The same failure with frames of two pages of the file changes no content. -/
theorem reachable_pageIn_failed_apart :
    (∃ m', aliased.makeResidentLocked 3 = .ok (.failed .io, m') ∧
      Stalled aliased m' (aliased.selectVictimLocked (some 3)).1) ∧
    ∃ m', (filePair pageSize).makeResidentLocked 3 = .ok (.failed .io, m') ∧
      ∀ g ∈ (filePair pageSize).frames, m'.content g = (filePair pageSize).content g := by
  refine ⟨⟨_, rfl, ?_⟩, _, rfl, ?_⟩
  · exact (reachable_pageIn_failed aliased_reachable (by decide)).1 _ _ .io rfl rfl nofun
  · have hstalled := (reachable_pageIn_failed (f := 3) (filePair_reachable pageSize)
      (by decide +kernel)).1 _ _ .io rfl rfl nofun
    exact hstalled.content filesApart_filePair

end FrameStore

end MiniMM
