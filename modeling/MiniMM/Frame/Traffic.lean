import MiniMM.Frame.Invariant

/-!
# Paging in and out is traffic

Every locked section that moves pages keeps the invariant of the store and the
content of every live frame.  The sections are taken apart into the updates of
one frame they consist of.
-/

namespace MiniMM

open Gather

theorem Frame.Ok.of_eq {x y : Frame} (hy : y.Ok) (hres : x.residentSlot = y.residentSlot)
    (hcold : x.cold = true → y.residentSlot.isSome)
    (hdirty : x.dirty = true → y.residentSlot.isSome)
    (htrans : x.transientPinCount ≠ 0 → y.residentSlot.isSome)
    (hpend : x.reclaimPending = y.reclaimPending)
    (hshared : x.source = .file → x.fileShared = true → x.swapSlot = none) : x.Ok where
  cold := by rw [hres]; exact hcold
  dirty := by rw [hres]; exact hdirty
  transient := by rw [hres]; exact htrans
  pending := by rw [hres, hpend]; exact hy.pending
  shared := hshared

namespace FrameStore

variable {m m' : FrameStore} {f g : FrameId} {x : Frame}

/-! ## Replacing one frame -/

/-- `m'` differs from `m` in the frame `f`, the free lists and the counters that
follow them. -/
structure Replaced (m m' : FrameStore) (f : FrameId) (x : Frame) : Prop where
  frame : m'.frame = Function.update m.frame f x
  frames : m'.frames = m.frames
  frameCount : m'.frameCount = m.frameCount
  nextFrameId : m'.nextFrameId = m.nextFrameId
  residentLimit : m'.residentLimit = m.residentLimit
  destroyRequested : m'.destroyRequested = m.destroyRequested
  swapSlotHighWater : m'.swapSlotHighWater = m.swapSlotHighWater
  nextSwapOffset : m'.nextSwapOffset = m.nextSwapOffset

/-- The frame gives up and takes slots only from the free lists. -/
structure Balanced (m m' : FrameStore) (f : FrameId) (x : Frame) : Prop where
  residentCount : m'.residentCount + m'.freeResidentSlots.length =
    m.residentCount + m.freeResidentSlots.length
  residentSlots : (m'.freeResidentSlots : Multiset ℕ) + opt x.residentSlot =
    ↑m.freeResidentSlots + opt (m.frame f).residentSlot
  swapSlotCount : m'.swapSlotCount + m'.freeSwapSlots.length =
    m.swapSlotCount + m.freeSwapSlots.length
  swapSlots : (m'.freeSwapSlots : Multiset ℕ) + opt x.swapSlot =
    ↑m.freeSwapSlots + opt (m.frame f).swapSlot
  refault : ∀ others,
    m.reclaimCount = sizeMax ∨
      m.refaultCount + ((opt (m.frame f).pending).card + others) ≤ m.reclaimCount →
    m'.reclaimCount = sizeMax ∨
      m'.refaultCount + ((opt x.pending).card + others) ≤ m'.reclaimCount
  reclaim : m'.reclaimCount ≤ m'.pageOutCount
  pageOut : m'.pageOutCount ≤ sizeMax

theorem gather_exchange {sel : Frame → Option ℕ} {val : FrameId → Frame} {keys : List FrameId}
    {free free' whole : Multiset ℕ} (hn : keys.Nodup) (hf : f ∈ keys)
    (hwhole : free + gather sel val keys = whole)
    (hfree : free' + opt (sel x) = free + opt (sel (val f))) :
    free' + gather sel (Function.update val f x) keys = whole := by
  rw [gather_update hn hf, ← add_assoc, hfree, add_assoc, ← gather_eq_add_erase hf, hwhole]

theorem Invariant.replace (h : m.Invariant) (hf : f ∈ m.frames) (hx : x.Ok)
    (hr : Replaced m m' f x) (hb : Balanced m m' f x) : m'.Invariant where
  nodup := by rw [hr.frames]; exact h.nodup
  fresh := by rw [hr.frames, hr.nextFrameId]; exact h.fresh
  frameCount := by rw [hr.frames, hr.frameCount]; exact h.frameCount
  frame := by
    intro g hg
    rw [hr.frames] at hg
    rw [hr.frame]
    by_cases hgf : g = f
    · subst hgf
      rwa [Function.update_self]
    · rw [Function.update_of_ne hgf]
      exact h.frame g hg
  residentCount := by rw [hb.residentCount, hr.residentLimit]; exact h.residentCount
  residentSlots := by
    rw [FrameStore.residentSlots, hr.frame, hr.frames, hr.residentLimit]
    exact gather_exchange h.nodup hf h.residentSlots hb.residentSlots
  swapSlotCount := by rw [hb.swapSlotCount, hr.swapSlotHighWater]; exact h.swapSlotCount
  swapSlots := by
    rw [FrameStore.swapSlots, hr.frame, hr.frames, hr.swapSlotHighWater]
    exact gather_exchange h.nodup hf h.swapSlots hb.swapSlots
  nextSwapOffset := by rw [hr.nextSwapOffset, hr.swapSlotHighWater]; exact h.nextSwapOffset
  refault := by
    have hold := h.refault
    unfold pendingCount at hold ⊢
    rw [gather_eq_add_erase hf, Multiset.card_add] at hold
    rw [hr.frame, hr.frames, gather_update h.nodup hf, Multiset.card_add]
    exact hb.refault _ hold
  reclaim := hb.reclaim
  pageOut := hb.pageOut

theorem Balanced.of_slots_eq (h : m.Invariant)
    (hres : x.residentSlot = (m.frame f).residentSlot)
    (hswap : x.swapSlot = (m.frame f).swapSlot)
    (hpend : x.reclaimPending = (m.frame f).reclaimPending)
    (hfree : m'.freeResidentSlots = m.freeResidentSlots)
    (hcount : m'.residentCount = m.residentCount)
    (hfreeSwap : m'.freeSwapSlots = m.freeSwapSlots)
    (hswapCount : m'.swapSlotCount = m.swapSlotCount)
    (hrefault : m'.refaultCount = m.refaultCount)
    (hreclaim : m'.reclaimCount = m.reclaimCount)
    (hpageOut : m'.pageOutCount = m.pageOutCount) : Balanced m m' f x where
  residentCount := by rw [hfree, hcount]
  residentSlots := by rw [hfree, hres]
  swapSlotCount := by rw [hfreeSwap, hswapCount]
  swapSlots := by rw [hfreeSwap, hswap]
  refault := by
    intro others hold
    rwa [Frame.pending, hpend, hrefault, hreclaim]
  reclaim := by rw [hreclaim, hpageOut]; exact h.reclaim
  pageOut := by rw [hpageOut]; exact h.pageOut

/-! ## What the content of a frame depends on -/

theorem content_congr (hframe : m'.frame g = m.frame g)
    (harena : ∀ slot, (m.frame g).residentSlot = some slot →
      m'.residentArena slot = m.residentArena slot)
    (hbacking : m'.backing g = m.backing g) : m'.content g = m.content g := by
  unfold content
  rw [hframe, hbacking]
  cases hslot : (m.frame g).residentSlot with
  | none => rfl
  | some slot => exact harena slot hslot

theorem content_of_not_resident (h : (m.frame f).residentSlot = none) :
    m.content f = m.backing f := by
  simp [content, h]

theorem backing_of_swapSlot {offset : ℕ} (h : (m.frame f).swapSlot = some offset) :
    m.backing f = ByteFile.readAt pageSize m.swap offset := by
  simp [backing, h]

theorem Invariant.nodup_residentSlots (h : m.Invariant) :
    (↑m.freeResidentSlots + m.residentSlots).Nodup :=
  h.residentSlots ▸ Multiset.nodup_range _

theorem Invariant.nodup_swapSlots (h : m.Invariant) :
    (↑m.freeSwapSlots + m.swapSlots).Nodup := by
  rw [h.swapSlots]
  refine (Multiset.nodup_range _).map fun i j hij ↦ ?_
  exact Nat.eq_of_mul_eq_mul_right (by decide : 0 < pageSize) hij

theorem Invariant.residentSlot_ne (h : m.Invariant) (hf : f ∈ m.frames) (hg : g ∈ m.frames)
    (hne : f ≠ g) {slot : ℕ} (hs : (m.frame f).residentSlot = some slot) :
    (m.frame g).residentSlot ≠ some slot := fun hs' ↦
  hne (eq_of_gather_nodup (Multiset.nodup_add.1 h.nodup_residentSlots).2.1 hf hg hs hs')

theorem Invariant.residentSlot_ne_free (h : m.Invariant) (hg : g ∈ m.frames) {slot : ℕ}
    (hs : slot ∈ m.freeResidentSlots) : (m.frame g).residentSlot ≠ some slot := fun hs' ↦
  Multiset.disjoint_left.1 (Multiset.nodup_add.1 h.nodup_residentSlots).2.2
    (Multiset.mem_coe.2 hs) (mem_gather.2 ⟨g, hg, hs'⟩)

theorem Invariant.swapSlot_apart (h : m.Invariant) (hf : f ∈ m.frames) (hg : g ∈ m.frames)
    (hne : f ≠ g) {a b : ℕ} (ha : (m.frame f).swapSlot = some a)
    (hb : (m.frame g).swapSlot = some b) : ByteFile.Apart pageSize a b := by
  have hoffset : ∀ {k c}, k ∈ m.frames → (m.frame k).swapSlot = some c →
      ∃ i, i * pageSize = c := by
    intro k c hk hc
    have hmem : c ∈ ↑m.freeSwapSlots + m.swapSlots :=
      Multiset.mem_add.2 (Or.inr (mem_gather.2 ⟨k, hk, hc⟩))
    rw [h.swapSlots, Multiset.mem_map] at hmem
    obtain ⟨i, -, hi⟩ := hmem
    exact ⟨i, hi⟩
  obtain ⟨i, rfl⟩ := hoffset hf ha
  obtain ⟨j, rfl⟩ := hoffset hg hb
  apply ByteFile.apart_mul_of_ne
  rintro rfl
  exact hne (eq_of_gather_nodup (Multiset.nodup_add.1 h.nodup_swapSlots).2.1 hf hg ha hb)

/-! ## Building blocks of traffic -/

/-- After some traffic one frame is replaced and nobody else's page is touched.
What is known of the replaced frame may depend on the state before the traffic. -/
theorem Traffic.then_replace {m0 : FrameStore} (h0 : Traffic m0 m) (hf : f ∈ m.frames)
    (hx : x.Ok) (hr : Replaced m m' f x) (hb : Balanced m m' f x)
    (hfixed : x.fixed = (m.frame f).fixed)
    (hpinned : (m.frame f).Pinned → m.resident f → x.residentSlot.isSome)
    (hothers : m.FilesApart → ∀ g ∈ m.frames, g ≠ f →
      m'.backing g = m.backing g ∧ m'.content g = m.content g)
    (hself : m0.FilesApart → m0.Coherent → m.Coherent → m'.content f = m.content f ∧
      (x.dirty = false → m'.backing f = m'.content f)) : Traffic m0 m' where
  invariant := h0.invariant.replace hf hx hr hb
  frames := hr.frames.trans h0.frames
  nextFrameId := hr.nextFrameId.trans h0.nextFrameId
  residentLimit := hr.residentLimit.trans h0.residentLimit
  destroyRequested := hr.destroyRequested.trans h0.destroyRequested
  fixed := by
    intro g
    rw [hr.frame, ← h0.fixed g]
    by_cases hgf : g = f
    · subst hgf
      rw [Function.update_self, hfixed]
    · rw [Function.update_of_ne hgf]
  pinned := by
    intro g hp hres
    have hp' := (h0.pinned_iff g).2 hp
    have hres' := h0.pinned g hp hres
    unfold resident
    rw [hr.frame]
    by_cases hgf : g = f
    · subst hgf
      rw [Function.update_self]
      exact hpinned hp' hres'
    · rwa [Function.update_of_ne hgf]
  content := by
    intro ha0 hc0
    obtain ⟨hc, hcont⟩ := h0.content ha0 hc0
    have ha := h0.filesApart ha0
    refine ⟨fun g hg hd ↦ ?_, fun g hg ↦ ?_⟩
    · rw [hr.frames] at hg
      rw [hr.frame] at hd
      by_cases hgf : g = f
      · subst hgf
        rw [Function.update_self] at hd
        exact (hself ha0 hc0 hc).2 hd
      · rw [Function.update_of_ne hgf] at hd
        rw [(hothers ha g hg hgf).1, (hothers ha g hg hgf).2, hc g hg hd]
    · rw [← hcont g hg]
      rw [← h0.frames] at hg
      by_cases hgf : g = f
      · subst hgf
        exact (hself ha0 hc0 hc).1
      · exact (hothers ha g hg hgf).2

theorem Traffic.replace (h : m.Invariant) (hf : f ∈ m.frames) (hx : x.Ok)
    (hr : Replaced m m' f x) (hb : Balanced m m' f x)
    (hfixed : x.fixed = (m.frame f).fixed)
    (hpinned : (m.frame f).Pinned → m.resident f → x.residentSlot.isSome)
    (hothers : m.FilesApart → ∀ g ∈ m.frames, g ≠ f →
      m'.backing g = m.backing g ∧ m'.content g = m.content g)
    (hself : m.Coherent → m'.content f = m.content f ∧
      (x.dirty = false → m'.backing f = m'.content f)) : Traffic m m' :=
  (Traffic.refl h).then_replace hf hx hr hb hfixed hpinned hothers fun _ _ hc ↦ hself hc

theorem Traffic.bookkeeping (h : m.Invariant) (host : Host) (scanCount waiters : ℕ) :
    Traffic m { m with
      host := host
      reclaimScanCount := scanCount
      transientWaiterCount := waiters } where
  invariant := ⟨h.nodup, h.fresh, h.frameCount, h.frame, h.residentCount, h.residentSlots,
    h.swapSlotCount, h.swapSlots, h.nextSwapOffset, h.refault, h.reclaim, h.pageOut⟩
  frames := rfl
  nextFrameId := rfl
  residentLimit := rfl
  destroyRequested := rfl
  fixed := fun _ ↦ rfl
  pinned := fun _ _ hr ↦ hr
  content := fun _ hc ↦ ⟨hc, fun _ _ ↦ rfl⟩

theorem Traffic.growSwap (h : m.Invariant) (hfree : m.freeSwapSlots = []) (host : Host) :
    Traffic m { m with
      host := host
      freeSwapSlots := [m.nextSwapOffset]
      nextSwapOffset := m.nextSwapOffset + pageSize
      swapSlotHighWater := m.swapSlotHighWater + 1 } where
  invariant :=
    { h with
      swapSlotCount := by
        have hcount := h.swapSlotCount
        rw [hfree] at hcount
        simpa using hcount
      swapSlots := by
        have hslots := h.swapSlots
        rw [hfree] at hslots
        simp only [Multiset.range_succ, Multiset.map_cons, ← h.nextSwapOffset, ← hslots]
        change (([m.nextSwapOffset] : List ℕ) : Multiset ℕ) + m.swapSlots = _
        simp
      nextSwapOffset := by
        simp only [h.nextSwapOffset]
        ring
      refault := h.refault }
  frames := rfl
  nextFrameId := rfl
  residentLimit := rfl
  destroyRequested := rfl
  fixed := fun _ ↦ rfl
  pinned := fun _ _ hr ↦ hr
  content := fun _ hc ↦ ⟨hc, fun _ _ ↦ rfl⟩

/-! ## Writing back -/

/-- What a write back of the frame leaves behind besides traffic. -/
structure WroteBack (m m' : FrameStore) (f : FrameId) (status : Status) : Prop where
  traffic : Traffic m m'
  others : ∀ g, g ≠ f → m'.frame g = m.frame g
  residentSlot : (m'.frame f).residentSlot = (m.frame f).residentSlot
  clean : status = .ok → (m'.frame f).dirty = false
  pageOutCount : m'.pageOutCount = m.pageOutCount
  reclaimCount : m'.reclaimCount = m.reclaimCount

theorem traffic_takeSwapSlot (h : m.Invariant) (hf : f ∈ m.frames) {slot offset : ℕ}
    {slots : List ℕ} (hslot : (m.frame f).residentSlot = some slot)
    (hdirty : (m.frame f).dirty = true)
    (hshared : ¬((m.frame f).source = .file ∧ (m.frame f).fileShared = true))
    (hnone : (m.frame f).swapSlot = none) (hfree : m.freeSwapSlots = offset :: slots) :
    Traffic m { m with
      frame := Function.update m.frame f { m.frame f with swapSlot := some offset }
      freeSwapSlots := slots
      swapSlotCount := m.swapSlotCount + 1 } := by
  have hok := h.frame f hf
  refine Traffic.replace (x := { m.frame f with swapSlot := some offset }) h hf
    (hok.of_eq rfl hok.cold hok.dirty hok.transient rfl fun hs hsh ↦ absurd ⟨hs, hsh⟩ hshared)
    ⟨rfl, rfl, rfl, rfl, rfl, rfl, rfl, rfl⟩ ?_ rfl
    (fun _ hr ↦ hr) ?_ ?_
  · refine ⟨rfl, rfl, ?_, ?_, fun _ hold ↦ hold, h.reclaim, h.pageOut⟩
    · simp only [hfree, List.length_cons]
      omega
    · simp [hfree, hnone, add_comm (slots : Multiset ℕ)]
  · intro _ g _ hgf
    simp [content, backing, Function.update_of_ne hgf]
  · intro _
    simp [content, hslot, hdirty]

theorem update_swapSlot_self {slot : Option ℕ} (hswap : (m.frame f).swapSlot = slot) :
    Function.update m.frame f { m.frame f with swapSlot := slot } = m.frame := by
  rw [← hswap]
  exact Function.update_eq_self f m.frame

theorem acquireSwapSlotLocked_spec (h : m.Invariant) (hf : f ∈ m.frames) {slot : ℕ}
    (hslot : (m.frame f).residentSlot = some slot) (hdirty : (m.frame f).dirty = true)
    (hshared : ¬((m.frame f).source = .file ∧ (m.frame f).fileShared = true)) :
    Traffic m (m.acquireSwapSlotLocked f).2 ∧
      (m.acquireSwapSlotLocked f).2.residentArena = m.residentArena ∧
      (m.acquireSwapSlotLocked f).2.pageOutCount = m.pageOutCount ∧
      (m.acquireSwapSlotLocked f).2.reclaimCount = m.reclaimCount ∧
      ∃ s, (m.acquireSwapSlotLocked f).2.frame =
          Function.update m.frame f { m.frame f with swapSlot := s } ∧
        ((m.acquireSwapSlotLocked f).1 = .ok → s.isSome) := by
  generalize hr : m.acquireSwapSlotLocked f = r
  unfold acquireSwapSlotLocked at hr
  dsimp only at hr
  split at hr
  · rename_i offset hswap
    subst hr
    exact ⟨Traffic.refl h, rfl, rfl, rfl, some offset, (update_swapSlot_self hswap).symm,
      fun _ ↦ rfl⟩
  · rename_i offset slots hswap hfree
    subst hr
    exact ⟨traffic_takeSwapSlot h hf hslot hdirty hshared hswap hfree, rfl, rfl, rfl,
      some offset, rfl, fun _ ↦ rfl⟩
  · rename_i hswap hfree
    split_ifs at hr with hfull
    · subst hr
      exact ⟨Traffic.refl h, rfl, rfl, rfl, none, (update_swapSlot_self hswap).symm, nofun⟩
    · split at hr
      · rename_i host _
        subst hr
        exact ⟨Traffic.bookkeeping h host _ _, rfl, rfl, rfl, none,
          (update_swapSlot_self hswap).symm, nofun⟩
      · rename_i host _
        subst hr
        have hgrow := Traffic.growSwap h hfree host
        exact ⟨hgrow.trans (traffic_takeSwapSlot hgrow.invariant hf hslot hdirty hshared
          hswap (by rw [hfree])), rfl, rfl, rfl, some m.nextSwapOffset, rfl, fun _ ↦ rfl⟩

/-- A page write touches no other page, and stores the page if it succeeds. -/
theorem writePage_spec (h : Host) (bytes : ByteFile.Bytes) (offset : ℕ) (data : Page) :
    (∀ other, ByteFile.Apart pageSize offset other →
      ByteFile.readAt pageSize (writePage h bytes offset data).2.1 other =
        ByteFile.readAt pageSize bytes other) ∧
    ((writePage h bytes offset data).1 = .ok →
      ByteFile.readAt pageSize (writePage h bytes offset data).2.1 offset = data) := by
  unfold writePage
  split_ifs with hbig
  · exact ⟨fun _ _ ↦ rfl, fun hst ↦ nomatch hst⟩
  · split
    · exact ⟨fun _ hap ↦ ByteFile.readAt_writeAt_of_apart _ _ hap,
        fun _ ↦ ByteFile.readAt_writeAt_same _ _ _⟩
    · exact ⟨fun _ hap ↦ ByteFile.readAt_writePrefix_of_apart _ _ _ hap, fun hst ↦ nomatch hst⟩

theorem backing_storeSwap (h : m.Invariant) (hf : f ∈ m.frames) (hg : g ∈ m.frames) (hgf : g ≠ f)
    {offset : ℕ} {bytes : ByteFile.Bytes} (hoffset : (m.frame f).swapSlot = some offset)
    (hothers : ∀ other, ByteFile.Apart pageSize offset other →
      ByteFile.readAt pageSize bytes other = ByteFile.readAt pageSize m.swap other)
    (hframe : m'.frame g = m.frame g) (hswap : m'.swap = bytes) (hfile : m'.file = m.file) :
    m'.backing g = m.backing g := by
  simp only [backing, hframe, hswap, hfile]
  split
  · rename_i other hother
    exact hothers other (h.swapSlot_apart hf hg (Ne.symm hgf) hoffset hother)
  · rfl

theorem backing_storeFile (ha : m.FilesApart) (hf : f ∈ m.frames) (hg : g ∈ m.frames)
    (hgf : g ≠ f) {b : FileBacking} (hsource : (m.frame f).source = .file)
    (hothers : ∀ other, ByteFile.Apart pageSize (m.frame f).fileOffset other →
      ByteFile.readAt pageSize b.bytes other =
        ByteFile.readAt pageSize (m.file (m.frame f).fileBacking).bytes other)
    (hframe : m'.frame g = m.frame g) (hswap : m'.swap = m.swap)
    (hfile : m'.file = Function.update m.file (m.frame f).fileBacking b) :
    m'.backing g = m.backing g := by
  simp only [backing, hframe, hswap, hfile]
  split
  · rfl
  · split_ifs with hsg
    · by_cases hb : (m.frame g).fileBacking = (m.frame f).fileBacking
      · rw [hb, Function.update_self]
        exact hothers _ (ha f hf g hg (Ne.symm hgf) hsource hsg hb.symm)
      · rw [Function.update_of_ne hb]
    · rfl

/-- Writing a resident frame to its swap slot; `d` is the dirty bit it ends with. -/
theorem traffic_storeSwap (h : m.Invariant) (hf : f ∈ m.frames) {slot offset : ℕ} {d : Bool}
    {bytes : ByteFile.Bytes} {frame : FrameId → Frame} (host : Host)
    (hframe : frame = Function.update m.frame f { m.frame f with dirty := d })
    (hslot : (m.frame f).residentSlot = some slot)
    (hoffset : (m.frame f).swapSlot = some offset)
    (hothers : ∀ other, ByteFile.Apart pageSize offset other →
      ByteFile.readAt pageSize bytes other = ByteFile.readAt pageSize m.swap other)
    (hclean : d = false → ByteFile.readAt pageSize bytes offset = m.residentArena slot) :
    Traffic m { m with
      host := host
      swap := bytes
      frame := frame } := by
  subst hframe
  have hok := h.frame f hf
  have hres : (m.frame f).residentSlot.isSome := by rw [hslot]; rfl
  refine Traffic.replace (x := { m.frame f with dirty := d }) h hf
    (hok.of_eq rfl hok.cold (fun _ ↦ hres) hok.transient rfl hok.shared)
    ⟨rfl, rfl, rfl, rfl, rfl, rfl, rfl, rfl⟩
    (Balanced.of_slots_eq h rfl rfl rfl rfl rfl rfl rfl rfl rfl rfl) rfl (fun _ hr ↦ hr) ?_ ?_
  · intro _ g hg hgf
    have hback : FrameStore.backing { m with
        host := host
        swap := bytes
        frame := Function.update m.frame f { m.frame f with dirty := d } } g = m.backing g :=
      backing_storeSwap h hf hg hgf hoffset hothers (Function.update_of_ne hgf _ _) rfl rfl
    refine ⟨hback, content_congr (Function.update_of_ne hgf _ _) (fun _ _ ↦ rfl) hback⟩
  · intro _
    simp only [content, backing, Function.update_self, hslot, hoffset]
    exact ⟨trivial, hclean⟩

/-- Writing a resident frame to its file page; `d` is the dirty bit it ends with. -/
theorem traffic_storeFile (h : m.Invariant) (hf : f ∈ m.frames) {slot : ℕ} {d : Bool}
    {b : FileBacking} {frame : FrameId → Frame} (host : Host)
    (hframe : frame = Function.update m.frame f { m.frame f with dirty := d })
    (hslot : (m.frame f).residentSlot = some slot)
    (hsource : (m.frame f).source = .file) (hshared : (m.frame f).fileShared = true)
    (hothers : ∀ other, ByteFile.Apart pageSize (m.frame f).fileOffset other →
      ByteFile.readAt pageSize b.bytes other =
        ByteFile.readAt pageSize (m.file (m.frame f).fileBacking).bytes other)
    (hclean : d = false →
      ByteFile.readAt pageSize b.bytes (m.frame f).fileOffset = m.residentArena slot) :
    Traffic m { m with
      host := host
      file := Function.update m.file (m.frame f).fileBacking b
      frame := frame } := by
  subst hframe
  have hok := h.frame f hf
  have hres : (m.frame f).residentSlot.isSome := by rw [hslot]; rfl
  refine Traffic.replace (x := { m.frame f with dirty := d }) h hf
    (hok.of_eq rfl hok.cold (fun _ ↦ hres) hok.transient rfl hok.shared)
    ⟨rfl, rfl, rfl, rfl, rfl, rfl, rfl, rfl⟩
    (Balanced.of_slots_eq h rfl rfl rfl rfl rfl rfl rfl rfl rfl rfl) rfl (fun _ hr ↦ hr) ?_ ?_
  · intro ha g hg hgf
    have hback : FrameStore.backing { m with
        host := host
        file := Function.update m.file (m.frame f).fileBacking b
        frame := Function.update m.frame f { m.frame f with dirty := d } } g = m.backing g :=
      backing_storeFile ha hf hg hgf hsource hothers (Function.update_of_ne hgf _ _) rfl rfl
    refine ⟨hback, content_congr (Function.update_of_ne hgf _ _) (fun _ _ ↦ rfl) hback⟩
  · intro _
    simp only [content, backing, Function.update_self, hslot, hok.shared hsource hshared,
      hsource, if_true]
    exact ⟨trivial, hclean⟩

theorem FileBacking.latchError_bytes (b : FileBacking) (status : Status) :
    (b.latchError status).bytes = b.bytes := by
  unfold FileBacking.latchError
  split <;> rfl

theorem update_dirty_self (hdirty : (m.frame f).dirty = true) :
    Function.update m.frame f { m.frame f with dirty := true } = m.frame := by
  rw [← hdirty]
  exact Function.update_eq_self f m.frame

theorem writeBackFileLocked_spec (h : m.Invariant) (hf : f ∈ m.frames) {slot : ℕ}
    (hslot : (m.frame f).residentSlot = some slot)
    (hsource : (m.frame f).source = .file) (hshared : (m.frame f).fileShared = true)
    (hdirty : (m.frame f).dirty = true) :
    WroteBack m (m.writeBackFileLocked f (m.residentArena slot)).2 f
      (m.writeBackFileLocked f (m.residentArena slot)).1 := by
  have hwrite := writePage_spec m.host (m.file (m.frame f).fileBacking).bytes
    (m.frame f).fileOffset (m.residentArena slot)
  unfold writeBackFileLocked
  dsimp only
  split_ifs with herror hst
  · exact ⟨Traffic.refl h, fun _ _ ↦ rfl, rfl, fun hst ↦ absurd hst herror, rfl, rfl⟩
  · refine ⟨traffic_storeFile (d := false) h hf _ rfl hslot hsource hshared ?_ ?_,
      fun g hgf ↦ Function.update_of_ne hgf _ _, ?_, ?_, rfl, rfl⟩
    · rw [FileBacking.latchError_bytes]
      exact hwrite.1
    · rw [FileBacking.latchError_bytes]
      exact fun _ ↦ hwrite.2 hst
    · simp
    · simp
  · refine ⟨traffic_storeFile (d := true) h hf _ (update_dirty_self hdirty).symm hslot hsource
      hshared ?_ (fun hd ↦ nomatch hd), fun _ _ ↦ rfl, rfl, fun h ↦ absurd h hst, rfl, rfl⟩
    rw [FileBacking.latchError_bytes]
    exact hwrite.1

theorem writeBackSwapLocked_spec (h : m.Invariant) (hf : f ∈ m.frames) {slot : ℕ}
    (hslot : (m.frame f).residentSlot = some slot) (hdirty : (m.frame f).dirty = true)
    (hshared : ¬((m.frame f).source = .file ∧ (m.frame f).fileShared = true)) :
    WroteBack m (m.writeBackSwapLocked f (m.residentArena slot)).2 f
      (m.writeBackSwapLocked f (m.residentArena slot)).1 := by
  obtain ⟨htraffic, harena, hout, hrec, s, hframe, hs⟩ :=
    acquireSwapSlotLocked_spec h hf hslot hdirty hshared
  unfold writeBackSwapLocked
  generalize m.acquireSwapSlotLocked f = r at *
  obtain ⟨status, m1⟩ := r
  dsimp only at htraffic harena hout hrec hframe hs
  have hslot1 : (m1.frame f).residentSlot = some slot := by simp [hframe, hslot]
  have hdirty1 : (m1.frame f).dirty = true := by simp [hframe, hdirty]
  have hf1 : f ∈ m1.frames := by rw [htraffic.frames]; exact hf
  have hothers : ∀ g, g ≠ f → m1.frame g = m.frame g := by
    intro g hgf
    rw [hframe, Function.update_of_ne hgf]
  split
  · rename_i m2 heq
    cases heq
    obtain ⟨offset, rfl⟩ := Option.isSome_iff_exists.1 (hs rfl)
    have hoffset : (m1.frame f).swapSlot = some offset := by simp [hframe]
    have hget : (m1.frame f).swapSlot.getD 0 = offset := by rw [hoffset]; rfl
    have hwrite := writePage_spec m1.host m1.swap offset (m.residentArena slot)
    rw [← harena] at hwrite ⊢
    simp only [hget]
    split_ifs with hst
    · refine ⟨htraffic.trans (traffic_storeSwap (d := false) htraffic.invariant hf1 _ rfl hslot1
        hoffset hwrite.1 fun _ ↦ hwrite.2 hst), fun g hgf ↦ ?_, ?_, ?_, hout, hrec⟩
      · simp only [Function.update_of_ne hgf]
        exact hothers g hgf
      · simp [hslot1, hslot]
      · simp
    · exact ⟨htraffic.trans (traffic_storeSwap (d := true) htraffic.invariant hf1 _
        (update_dirty_self hdirty1).symm hslot1 hoffset hwrite.1 fun hd ↦ nomatch hd),
        hothers, hslot1.trans hslot.symm, fun h ↦ absurd h hst, hout, hrec⟩
  · rename_i hne heq
    cases heq
    exact ⟨htraffic, hothers, hslot1.trans hslot.symm, fun hst ↦ absurd hst hne, hout, hrec⟩

theorem writeBackLocked_spec (h : m.Invariant) (hf : f ∈ m.frames) :
    WroteBack m (m.writeBackLocked f).2 f (m.writeBackLocked f).1 := by
  unfold writeBackLocked
  dsimp only
  split
  · rename_i slot hdirty hslot
    split_ifs with hfile
    · exact writeBackFileLocked_spec h hf hslot hfile.1 hfile.2 hdirty
    · exact writeBackSwapLocked_spec h hf hslot hdirty hfile
  · rename_i hclean
    refine ⟨Traffic.refl h, fun _ _ ↦ rfl, rfl, fun _ ↦ ?_, rfl, rfl⟩
    by_contra hdirty
    rw [Bool.not_eq_false] at hdirty
    obtain ⟨slot, hslot⟩ := Option.isSome_iff_exists.1 ((h.frame f hf).dirty hdirty)
    exact hclean slot hdirty hslot

end FrameStore

end MiniMM
