import MiniMM.Frame.Effect
import MiniMM.Frame.Reach
import MiniMM.Lib.Select

/-!
# The order of eviction

The victim scan picks the first frame of a fixed order, so that the rounds of a
reclaim take a prefix of that order.
-/

namespace MiniMM

open Select

namespace FrameStore

/-- Cold frames before the others, then by the last access, then by id. -/
def recency (m : FrameStore) (f : FrameId) : Bool ×ₗ ℕ ×ₗ ℕ :=
  toLex (!(m.frame f).cold, toLex ((m.frame f).lastAccess, f))

/-- Resident and unpinned. -/
def evictable (m : FrameStore) (f : FrameId) : Bool :=
  m.resident f && (m.frame f).pinCount == 0 && (m.frame f).transientPinCount == 0

/-- The frames that may be evicted, in the order they would be. -/
def evictionOrder (m : FrameStore) : List FrameId :=
  byKey m.recency (m.frames.filter m.evictable)

variable {m m' : FrameStore} {f g : FrameId} {excluded : Option FrameId}

theorem recency_injective (m : FrameStore) : Function.Injective m.recency := by
  intro f g h
  simp only [recency, EmbeddingLike.apply_eq_iff_eq, Prod.mk.injEq] at h
  exact h.2.2

theorem precedesCandidate_some :
    m.precedesCandidate f (some g) = decide (m.recency f < m.recency g) := by
  simp only [precedesCandidate, recency, Prod.Lex.toLex_lt_toLex]
  by_cases hcold : (m.frame f).cold = (m.frame g).cold
  · by_cases haccess : (m.frame f).lastAccess = (m.frame g).lastAccess
    · simp [hcold, haccess]
    · simp [hcold, haccess]
  · rw [if_pos hcold]
    cases hf : (m.frame f).cold <;> cases hg : (m.frame g).cold <;> simp_all

theorem evictable_iff (m : FrameStore) (excluded : Option FrameId) (g : FrameId) :
    m.Evictable excluded g ↔ excluded ≠ some g ∧ m.evictable g = true := by
  simp [Evictable, evictable, Frame.Pinned, and_assoc]

theorem resident_of_evictable (h : m.evictable f = true) : m.resident f = true :=
  ((evictable_iff m none f).mpr ⟨nofun, h⟩).2.1

/-! ## The scan -/

theorem victimStep_le {acc : VictimScan} {current h : FrameId}
    (hseen : acc.candidate = some h ∨ h = current ∧ m.Evictable excluded h) :
    ∃ g, (m.victimStep excluded acc current).candidate = some g ∧ m.recency g ≤ m.recency h := by
  unfold victimStep
  dsimp only
  by_cases hskip : excluded = some current ∨ (m.frame current).residentSlot = none
  · rw [if_pos hskip]
    rcases hseen with hseen | ⟨rfl, hne, hres, -⟩
    · exact ⟨h, hseen, le_rfl⟩
    · rcases hskip with hskip | hskip
      · exact absurd hskip hne
      · simp [resident, hskip] at hres
  rw [if_neg hskip]
  dsimp only
  split_ifs with htake
  · refine ⟨current, rfl, ?_⟩
    rcases hseen with hseen | ⟨rfl, -⟩
    · have hlt := htake.2.2
      rw [hseen, precedesCandidate_some, decide_eq_true_eq] at hlt
      exact hlt.le
    · exact le_rfl
  · rcases hseen with hseen | ⟨rfl, -, -, hfree⟩
    · exact ⟨h, hseen, le_rfl⟩
    · -- The current frame is free, so an earlier candidate was no worse.
      simp only [Frame.Pinned, not_or, not_not] at hfree
      cases hc : acc.candidate with
      | none => exact absurd ⟨hfree.1, hfree.2, by simp [hc, precedesCandidate]⟩ htake
      | some g =>
        refine ⟨g, rfl, le_of_not_gt fun hlt ↦ htake ⟨hfree.1, hfree.2, ?_⟩⟩
        rw [hc, precedesCandidate_some, decide_eq_true_eq]
        exact hlt

theorem victimFold_le {l : List FrameId} (acc : VictimScan) {h : FrameId}
    (hseen : acc.candidate = some h ∨ h ∈ l ∧ m.Evictable excluded h) :
    ∃ g, (l.foldl (m.victimStep excluded) acc).candidate = some g ∧
      m.recency g ≤ m.recency h := by
  induction l generalizing acc h with
  | nil =>
    rcases hseen with hseen | ⟨hmem, -⟩
    · exact ⟨h, hseen, le_rfl⟩
    · cases hmem
  | cons current l ih =>
    rw [List.foldl_cons]
    have hstep : acc.candidate = some h ∨ h = current ∧ m.Evictable excluded h →
        ∃ g, (l.foldl (m.victimStep excluded) (m.victimStep excluded acc current)).candidate =
          some g ∧ m.recency g ≤ m.recency h := by
      intro hcase
      obtain ⟨c, hc, hle⟩ := victimStep_le hcase
      obtain ⟨g, hg, hle'⟩ := ih _ (Or.inl hc)
      exact ⟨g, hg, hle'.trans hle⟩
    rcases hseen with hseen | ⟨hmem, hev⟩
    · exact hstep (Or.inl hseen)
    · rcases List.mem_cons.mp hmem with rfl | hmem
      · exact hstep (Or.inr ⟨rfl, hev⟩)
      · exact ih _ (Or.inr ⟨hmem, hev⟩)

theorem selectVictimLocked_eq (m : FrameStore) (excluded : Option FrameId) :
    (m.selectVictimLocked excluded).1 =
      (m.evictionOrder.filter fun g ↦ excluded ≠ some g).head? := by
  rw [evictionOrder, ← byKey_filter m.recency_injective, List.filter_filter]
  have hmem : ∀ g, g ∈ m.frames.filter (fun g ↦ decide (excluded ≠ some g) && m.evictable g) ↔
      g ∈ m.frames ∧ m.Evictable excluded g := by
    intro g
    rw [List.mem_filter, evictable_iff, Bool.and_eq_true, decide_eq_true_eq]
  cases hc : (m.selectVictimLocked excluded).1 with
  | none =>
    have hnil : m.frames.filter (fun g ↦ decide (excluded ≠ some g) && m.evictable g) = [] := by
      rw [List.eq_nil_iff_forall_not_mem]
      intro g hg
      obtain ⟨c, hsome, -⟩ := victimFold_le ⟨none, 0, m.reclaimScanCount⟩
        (Or.inr ((hmem g).mp hg))
      exact absurd (hc.symm.trans hsome) nofun
    rw [hnil, byKey_nil]
    rfl
  | some c =>
    have hin := (hmem c).mpr (selectVictimLocked_spec hc)
    rw [byKey_eq_cons m.recency_injective hin]
    · rfl
    · intro g hg
      obtain ⟨c', hsome, hle⟩ := victimFold_le ⟨none, 0, m.reclaimScanCount⟩
        (Or.inr ((hmem g).mp hg))
      rw [← Option.some.inj (hc.symm.trans hsome)] at hle
      exact hle

section Round

variable {rest : List FrameId} (h : m.Invariant) (horder : m.evictionOrder = f :: rest)

include horder

include h

end Round

/-! ## The rounds of a reclaim -/

/-- `m'` is `m` with the frames `taken` paged out by reclaim. -/
structure Reclaimed (m m' : FrameStore) (taken : List FrameId) : Prop where
  frames : m'.frames = m.frames
  pagedOut : ∀ f ∈ taken, m.resident f = true ∧ m'.resident f = false
  pending : ∀ f ∈ taken, (m.frame f).reclaimPending = false ∧ (m'.frame f).reclaimPending = true
  others : ∀ f, f ∉ taken → m'.frame f = m.frame f
  arena : m'.residentArena = m.residentArena

theorem Reclaimed.nil (hframe : m'.frame = m.frame) (hframes : m'.frames = m.frames)
    (harena : m'.residentArena = m.residentArena) : Reclaimed m m' [] :=
  ⟨hframes, by simp, by simp, fun f _ ↦ congrFun hframe f, harena⟩

theorem Reclaimed.cons {m1 : FrameStore} {taken : List FrameId} (h : m.Invariant)
    (hf : f ∈ m.frames) (hres : m.resident f = true) (hev : Evicted m m1 f .ok)
    (hpending : (m1.frame f).reclaimPending = true)
    (harena : m1.residentArena = m.residentArena) (hfresh : f ∉ taken)
    (hrest : Reclaimed m1 m' taken) : Reclaimed m m' (f :: taken) := by
  have hfirst : m'.frame f = m1.frame f := hrest.others f hfresh
  have hne : ∀ g ∈ taken, g ≠ f := fun g hg heq ↦ hfresh (heq ▸ hg)
  constructor
  · rw [hrest.frames, hev.traffic.frames]
  · intro g hg
    rcases List.mem_cons.mp hg with rfl | hg
    · refine ⟨hres, ?_⟩
      rw [resident, hfirst]
      exact hev.gone rfl
    · have := hrest.pagedOut g hg
      rwa [resident, hev.others g (hne g hg)] at this
  · intro g hg
    rcases List.mem_cons.mp hg with rfl | hg
    · rw [hfirst]
      refine ⟨?_, hpending⟩
      by_contra hpend
      have := (h.frame g hf).pending (by simpa using hpend)
      simp [resident, this] at hres
    · have := hrest.pending g hg
      rwa [hev.others g (hne g hg)] at this
  · intro g hg
    rw [List.mem_cons, not_or] at hg
    rw [hrest.others g hg.2, hev.others g hg.1]
  · exact hrest.arena.trans harena

theorem readBackingLocked_host (m : FrameStore) (f : FrameId) :
    (m.readBackingLocked f).2 = { m with host := (m.readBackingLocked f).2.host } := by
  unfold readBackingLocked
  dsimp only
  split
  · rfl
  · split_ifs <;> rfl

/-- A store with `n` clean frames, all of them in the arena. -/
structure Filled (n : ℕ) (m : FrameStore) : Prop where
  length : m.frames.length = n
  evictable : ∀ f ∈ m.frames, m.evictable f = true
  clean : ∀ f ∈ m.frames, (m.frame f).dirty = false
  residentCount : m.residentCount = n
  nextFrameId : m.nextFrameId = n + 1
  host : m.host = Host.reliable
  live : m.destroyRequested = false

theorem exec_ensureResident_zero {slot : ℕ} {slots : List ℕ}
    (hres : (m.frame f).residentSlot = none) (hswap : (m.frame f).swapSlot = none)
    (hzero : (m.frame f).source = .zero) (hroom : m.residentCount < m.residentLimit)
    (hslots : m.freeResidentSlots = slot :: slots) :
    m.exec (.request f .ensureResident false) =
      .ok (some { status := .ok, pagedIn := true }, (m.installLocked f 0).2) := by
  have hread : m.readBackingLocked f = (some 0, m) := by
    simp [readBackingLocked, hswap, hzero]
  have hmake : m.makeResidentLocked f = .ok (m.installLocked f 0) := by
    rw [makeResidentLocked, if_neg (by simp [resident, hres]), hread]
    dsimp only
    rw [if_neg (by omega)]
  simp only [exec, request, Request.early, requestLocked, passLocked, hmake]
  simp only [installLocked, hslots]
  rfl

theorem Filled.succ {n : ℕ} (hreach : AnyReachable m) (h : Filled n m) (hn : n < m.residentLimit)
    (hmax : n + 1 < sizeMax) :
    ∃ m', AnyReachable m' ∧ Filled (n + 1) m' ∧ m'.residentLimit = m.residentLimit := by
  have hcount := hreach.invariant.residentCount
  obtain ⟨slot, slots, hslots⟩ : ∃ slot slots, m.freeResidentSlots = slot :: slots := by
    cases hs : m.freeResidentSlots with
    | nil =>
      rw [hs, h.residentCount, List.length_nil] at hcount
      omega
    | cons slot slots => exact ⟨slot, slots, rfl⟩
  have hnew : ∀ f ∈ m.frames, f ≠ n + 1 := by
    intro f hf
    have := hreach.invariant.fresh f hf
    rw [h.nextFrameId] at this
    exact Nat.ne_of_lt this
  obtain ⟨m1, hm1⟩ : ∃ m1, m1 = { m with
      frame := Function.update m.frame (n + 1) {}
      nextFrameId := n + 1 + 1
      frames := (n + 1) :: m.frames
      frameCount := m.frameCount + 1 } := ⟨_, rfl⟩
  have hcreate : m.exec (.create .zero 0 0 false) = .ok ((.ok, n + 1), m1) := by
    have hne : m.nextFrameId ≠ sizeMax := by rw [h.nextFrameId]; omega
    have hmalloc : m.host.malloc = (true, m.host) := by rw [h.host]; rfl
    simp only [exec, createFrame, hmalloc, h.live, Bool.false_eq_true, if_false, if_neg hne]
    simp only [h.nextFrameId, hm1, h.live]
  have hslots1 : m1.freeResidentSlots = slot :: slots := by rw [hm1, ← hslots]
  have hself : m1.frame (n + 1) = {} := by simp [hm1]
  have hpage := exec_ensureResident_zero (m := m1) (f := n + 1) (by rw [hself]) (by rw [hself])
    (by rw [hself]) (by rw [hm1]; dsimp only; rw [h.residentCount]; exact hn) hslots1
  have hreach1 : AnyReachable m1 := .step hreach trivial (by rintro f ⟨⟩) hcreate trivial
  refine ⟨_, .step hreach1 trivial ?_ hpage trivial, ?_, ?_⟩
  · rintro f ⟨⟩
    simp [hm1]
  · simp only [installLocked, hslots1]
    have hframe : ∀ f ∈ m.frames, m1.frame f = m.frame f := by
      intro f hf
      rw [hm1]
      exact Function.update_of_ne (hnew f hf) _ _
    have hframes : m1.frames = (n + 1) :: m.frames := by rw [hm1]
    refine ⟨?_, ?_, ?_, ?_, ?_, ?_, ?_⟩
    · simp [hframes, h.length]
    · intro f hf
      rw [hframes] at hf
      rcases List.mem_cons.mp hf with rfl | hf
      · simp [FrameStore.evictable, resident, hself]
      · have := h.evictable f hf
        simpa [FrameStore.evictable, resident, Function.update_of_ne (hnew f hf),
          hframe f hf] using this
    · intro f hf
      rw [hframes] at hf
      rcases List.mem_cons.mp hf with rfl | hf
      · simp [hself]
      · simpa [Function.update_of_ne (hnew f hf), hframe f hf] using h.clean f hf
    · simp [hm1, h.residentCount]
    · simp [hm1]
    · simpa [hm1] using h.host
    · simpa [hm1] using h.live
  · simp only [installLocked, hslots1]
    rw [hm1]

end FrameStore

end MiniMM
