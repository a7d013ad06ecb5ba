import MiniMM.Logic.Sound

/-!
# Locks, translations and counters keep the invariant

The steps outside the frame store.
-/

namespace MiniMM

open Handle Tally

namespace Sys

/-- A backing is locked by somebody who has lent it a reference. -/
def lent : LockId → Multiset Handle
  | .backing b => {Handle.backing b}
  | _ => 0

theorem unheld_change {s t : Sys} {l : LockId} (hl : l ∈ s.locks) (hlocks : t.locks = s.locks)
    (hothers : ∀ k, k ≠ l → t.unheldPart k = s.unheldPart k) :
    ∑ k ∈ t.locks, t.unheldPart k + s.unheldPart l =
      ∑ k ∈ s.locks, s.unheldPart k + t.unheldPart l := by
  rw [hlocks]
  exact sum_change hl hothers

theorem stored_change {s t : Sys} {a b c d e f : Multiset Handle}
    (htlb : t.tlbStored + a = s.tlbStored + b) (hinfo : t.infoStored + c = s.infoStored + d)
    (hunheld : ∑ k ∈ t.locks, t.unheldPart k + e = ∑ k ∈ s.locks, s.unheldPart k + f) :
    t.stored + (a + c + e) = s.stored + (b + d + f) := by
  unfold stored
  calc t.tlbStored + t.infoStored + ∑ k ∈ t.locks, t.unheldPart k + (a + c + e)
      = (t.tlbStored + a) + (t.infoStored + c) + (∑ k ∈ t.locks, t.unheldPart k + e) := by abel
    _ = s.tlbStored + s.infoStored + ∑ k ∈ s.locks, s.unheldPart k + (b + d + f) := by
      rw [htlb, hinfo, hunheld]
      abel

/-- `s'` differs from `s` in one lock and what it protects. -/
structure Relocked (s s' : Sys) (l : LockId) : Prop where
  store : s'.store = s.store
  refs : s'.refs = s.refs
  tlb : s'.tlb = s.tlb
  nextSpace : s'.nextSpace = s.nextSpace
  backingInfo : s'.backingInfo = s.backingInfo
  backingRefs : s'.backingRefs = s.backingRefs
  nextBacking : s'.nextBacking = s.nextBacking
  noteInfo : s'.noteInfo = s.noteInfo
  noteSize : s'.noteSize = s.noteSize
  noteRefs : s'.noteRefs = s.noteRefs
  activeMappings : s'.activeMappings = s.activeMappings
  nextNote : s'.nextNote = s.nextNote
  nextLineage : s'.nextLineage = s.nextLineage
  held : ∀ k, k ≠ l → s'.held k = s.held k
  space : ∀ i, .space i ≠ l → s'.space i = s.space i
  backingPages : ∀ b, .backing b ≠ l → s'.backingPages b = s.backingPages b
  lineage : ∀ v, .lineage v ≠ l → s'.lineage v = s.lineage v

namespace Relocked

variable {s s' : Sys} {l : LockId}

theorem of_held (v : Bool) : Relocked s { s with held := Function.update s.held l v } l :=
  ⟨rfl, rfl, rfl, rfl, rfl, rfl, rfl, rfl, rfl, rfl, rfl, rfl, rfl,
    fun _ hk ↦ Function.update_of_ne hk _ _, fun _ _ ↦ rfl, fun _ _ ↦ rfl, fun _ _ ↦ rfl⟩

theorem locks (h : Relocked s s' l) : s'.locks = s.locks := by
  simp only [Sys.locks, h.nextSpace, h.nextBacking, h.nextLineage]

theorem guarded (h : Relocked s s' l) {k : LockId} (hk : k ≠ l) : s'.guarded k = s.guarded k := by
  cases k with
  | space i => simp only [Sys.guarded, h.space i hk]
  | brk i => rfl
  | backing b => simp only [Sys.guarded, h.backingRefs, h.backingPages b hk]
  | lineage v => simp only [Sys.guarded, h.lineage v hk]

theorem stored (h : Relocked s s' l) (hl : l ∈ s.locks) :
    s'.stored + s.unheldPart l = s.stored + s'.unheldPart l := by
  have hch := stored_change (s := s) (t := s') (a := 0) (b := 0) (c := 0) (d := 0)
    (by simp only [tlbStored, h.nextSpace, h.tlb])
    (by simp only [infoStored, infoPart, h.nextBacking, h.backingRefs, h.backingInfo])
    (unheld_change hl h.locks fun k hk ↦ by simp only [unheldPart, h.held k hk, h.guarded hk])
  simpa using hch

theorem lockOk (h : Relocked s s' l) {μ : Mode} {k : LockId} (hk : k ≠ l) (hok : s.LockOk μ k) :
    s'.LockOk μ k := by
  cases k with
  | space i =>
    rw [LockOk, h.space i hk]
    exact hok.congr (by rw [h.tlb]) (fun _ _ ↦ by rw [h.backingInfo])
      fun _ _ _ _ hr ↦ by rwa [h.store]
  | brk i => trivial
  | backing b =>
    rw [LockOk, h.backingRefs, h.backingPages b hk]
    exact hok
  | lineage v =>
    rw [LockOk, h.lineage v hk]
    exact hok.congr (fun _ ↦ by rw [h.nextNote, h.noteInfo]) fun _ _ ↦ by rw [h.noteSize]

theorem count (h : Relocked s s' l) (hheld : s'.held l = true) (hfree : s.held l = false)
    (hpos : ∀ b, l = .backing b → s.backingRefs b ≠ 0) (x : Handle) :
    s'.count x + (lent l).count x = s.count x + ({Handle.lock l} : Multiset Handle).count x := by
  cases x with
  | lock k =>
    by_cases hk : k = l
    · subst hk
      cases k <;> simp [Sys.count, hheld, hfree, lent]
    · rw [count_single fun heq ↦ hk (Handle.lock.inj heq)]
      cases l <;> simp [Sys.count, h.held k hk, lent]
  | backing b =>
    rw [count_single (by simp)]
    by_cases hl : l = .backing b
    · subst hl
      have := hpos b rfl
      simp only [Sys.count, hheld, h.backingRefs, hfree, lent, if_true, Bool.false_eq_true,
        if_false, Multiset.count_singleton_self]
      omega
    · have hlent : (lent l).count (Handle.backing b) = 0 := by
        cases l with
        | backing c => exact count_single fun heq ↦ hl (by rw [Handle.backing.inj heq])
        | _ => rfl
      simp [Sys.count, h.held _ (Ne.symm hl), h.backingRefs, hlent]
  | _ => cases l <;> simp [Sys.count, h.store, h.refs, h.noteRefs, h.activeMappings, lent]

theorem symm (h : Relocked s s' l) : Relocked s' s l :=
  ⟨h.store.symm, h.refs.symm, h.tlb.symm, h.nextSpace.symm, h.backingInfo.symm,
    h.backingRefs.symm, h.nextBacking.symm, h.noteInfo.symm, h.noteSize.symm, h.noteRefs.symm,
    h.activeMappings.symm, h.nextNote.symm, h.nextLineage.symm, fun k hk ↦ (h.held k hk).symm,
    fun i hi ↦ (h.space i hi).symm, fun b hb ↦ (h.backingPages b hb).symm,
    fun v hv ↦ (h.lineage v hv).symm⟩

end Relocked

end Sys

namespace Inv

variable {μ : Mode} {w : World} {s' : Sys} {mine' : Multiset Handle} {l : LockId}

theorem relocked (h : Inv μ w) (hl : l ∈ w.sys.locks) (hs : Sys.Relocked w.sys s' l)
    (htally : Tallies s'.count (s'.stored + mine' + w.others))
    (hlent : ∀ b, l = .backing b → w.sys.backingRefs b ≠ 0)
    (hok : s'.held l = false → s'.LockOk μ l) : Inv μ ⟨s', mine', w.others⟩ where
  store := hs.store ▸ h.store
  tally := htally
  live := by
    rw [hs.refs, hs.store]
    exact h.live
  lent b hb := by
    rw [hs.backingRefs]
    by_cases hbl : LockId.backing b = l
    · exact hlent b hbl.symm
    · exact h.lent b (by rwa [← hs.held _ hbl])
  fresh := by
    refine ⟨?_, fun k hk ↦ ?_, ?_, ?_, ?_⟩
    · rw [hs.store, hs.refs]
      exact h.fresh.frame
    · rw [hs.locks] at hk
      rw [hs.held k fun heq ↦ hk (heq ▸ hl)]
      exact h.fresh.lock k hk
    · rw [hs.backingRefs, hs.nextBacking]
      exact h.fresh.backing
    · rw [hs.noteRefs, hs.activeMappings, hs.nextNote]
      exact h.fresh.note
    · rw [hs.noteInfo, hs.nextNote, hs.nextLineage]
      exact h.fresh.noteLineage
  tlbs := by
    refine ⟨?_, ?_⟩
    · rw [hs.tlb]
      exact h.tlbs.entry
    · rw [hs.tlb, hs.nextSpace]
      exact h.tlbs.capacity
  locks k hk hfree := by
    by_cases hkl : k = l
    · subst hkl
      exact hok hfree
    · rw [hs.locks] at hk
      rw [hs.held k hkl] at hfree
      exact hs.lockOk hkl (h.locks k hk hfree)

theorem take_lock (h : Inv μ w) (hl : l ∈ w.sys.locks) (hfree : w.sys.held l = false)
    (hs : Sys.Relocked w.sys s' l) (hheld : s'.held l = true)
    (hlent : Sys.lent l ≤ w.mine)
    (hmine : mine' + Sys.lent l = w.mine + ({lock l} + w.sys.guarded l)) :
    Inv μ ⟨s', mine', w.others⟩ := by
  have hpos : ∀ b, l = .backing b → w.sys.backingRefs b ≠ 0 := by
    rintro b rfl
    exact (h.backing_pos (Multiset.singleton_le.1 hlent)).1
  refine h.relocked hl hs ?_ hpos fun hfalse ↦ by rw [hheld] at hfalse; cases hfalse
  refine h.tally_change hmine ?_ (hs.count hheld hfree hpos)
  have hstored := hs.stored hl
  simp only [Sys.unheldPart, hheld, hfree, if_true, Bool.false_eq_true, if_false, add_zero]
    at hstored
  rw [← hstored]
  abel

theorem put_lock (h : Inv μ w) (hl : lock l ∈ w.mine) (hs : Sys.Relocked w.sys s' l)
    (hfree : s'.held l = false) (hok : s'.LockOk μ l)
    (hmine : mine' + ({lock l} + s'.guarded l) = w.mine + Sys.lent l) :
    Inv μ ⟨s', mine', w.others⟩ := by
  have hheld := h.held_of_mem hl
  have hpos : ∀ b, l = .backing b → w.sys.backingRefs b ≠ 0 := by
    rintro b rfl
    exact h.lent b hheld
  refine h.relocked (h.lock_exists hl) hs ?_ hpos fun _ ↦ hok
  refine h.tally_change hmine ?_ fun x ↦
    (hs.symm.count hheld hfree (by rwa [hs.backingRefs]) x).symm
  have hstored := hs.stored (h.lock_exists hl)
  simp only [Sys.unheldPart, hheld, hfree, if_true, Bool.false_eq_true, if_false, add_zero]
    at hstored
  rw [hstored]
  abel

end Inv

end MiniMM
