import MiniMM.Frame.Store
import MiniMM.Lib.Gather

/-!
# The invariant of the frame store and the content of a frame

The slots of the arena and of the swap file are each owned by one live frame or
free.  The content of a frame is what a reader would see, wherever it is kept;
the clean frames agree with their backing.
-/

namespace MiniMM

open Gather

/-- A reclaimed frame that has not been paged in since. -/
def Frame.pending (x : Frame) : Option Unit :=
  if x.reclaimPending then some () else none

/-- What the store knows of each frame by itself. -/
structure Frame.Ok (x : Frame) : Prop where
  cold : x.cold = true → x.residentSlot.isSome
  dirty : x.dirty = true → x.residentSlot.isSome
  transient : x.transientPinCount ≠ 0 → x.residentSlot.isSome
  pending : x.reclaimPending = true → x.residentSlot = none
  shared : x.source = .file → x.fileShared = true → x.swapSlot = none

/-- The fields of a frame that paging in and out leaves alone. -/
def Frame.fixed (x : Frame) : Frame :=
  { x with residentSlot := none, swapSlot := none, lastAccess := 0, dirty := false,
           cold := false, reclaimPending := false }

/-- The frame may not be evicted. -/
def Frame.Pinned (x : Frame) : Prop :=
  x.pinCount ≠ 0 ∨ x.transientPinCount ≠ 0

namespace FrameStore

/-- The arena slots of the live frames. -/
def residentSlots (m : FrameStore) : Multiset ℕ :=
  gather Frame.residentSlot m.frame m.frames

/-- The swap slots of the live frames. -/
def swapSlots (m : FrameStore) : Multiset ℕ :=
  gather Frame.swapSlot m.frame m.frames

/-- The number of live frames that wait for a refault. -/
def pendingCount (m : FrameStore) : ℕ :=
  (gather Frame.pending m.frame m.frames).card

/-- The invariant of the store. -/
structure Invariant (m : FrameStore) : Prop where
  nodup : m.frames.Nodup
  fresh : ∀ f ∈ m.frames, f < m.nextFrameId
  frameCount : m.frameCount = m.frames.length
  frame : ∀ f ∈ m.frames, (m.frame f).Ok
  residentCount : m.residentCount + m.freeResidentSlots.length = m.residentLimit
  residentSlots : ↑m.freeResidentSlots + m.residentSlots = Multiset.range m.residentLimit
  swapSlotCount : m.swapSlotCount + m.freeSwapSlots.length = m.swapSlotHighWater
  swapSlots : ↑m.freeSwapSlots + m.swapSlots =
    (Multiset.range m.swapSlotHighWater).map (· * pageSize)
  nextSwapOffset : m.nextSwapOffset = m.swapSlotHighWater * pageSize
  refault : m.reclaimCount = sizeMax ∨ m.refaultCount + m.pendingCount ≤ m.reclaimCount
  reclaim : m.reclaimCount ≤ m.pageOutCount
  pageOut : m.pageOutCount ≤ sizeMax

/-- The page that would be read if the frame were paged in. -/
def backing (m : FrameStore) (f : FrameId) : Page :=
  match (m.frame f).swapSlot with
  | some offset => ByteFile.readAt pageSize m.swap offset
  | none =>
    if (m.frame f).source = .file then
      ByteFile.readAt pageSize (m.file (m.frame f).fileBacking).bytes (m.frame f).fileOffset
    else 0

/-- The logical content of a frame: the arena bytes if it is resident, else its
swap slot if it has one, else its file page, else zeros. -/
def content (m : FrameStore) (f : FrameId) : Page :=
  match (m.frame f).residentSlot with
  | some slot => m.residentArena slot
  | none => m.backing f

/-- A clean frame can be dropped from the arena without loss. -/
def Coherent (m : FrameStore) : Prop :=
  ∀ f ∈ m.frames, (m.frame f).dirty = false → m.backing f = m.content f

/-- No two live file frames name overlapping pages of one file. -/
def FilesApart (m : FrameStore) : Prop :=
  ∀ f ∈ m.frames, ∀ g ∈ m.frames, f ≠ g → (m.frame f).source = .file →
    (m.frame g).source = .file → (m.frame f).fileBacking = (m.frame g).fileBacking →
    ByteFile.Apart pageSize (m.frame f).fileOffset (m.frame g).fileOffset

/-- `m'` comes from `m` by moving pages between the arena, the swap file and the
backing files, and by nothing else. -/
structure Traffic (m m' : FrameStore) : Prop where
  invariant : m'.Invariant
  frames : m'.frames = m.frames
  nextFrameId : m'.nextFrameId = m.nextFrameId
  residentLimit : m'.residentLimit = m.residentLimit
  destroyRequested : m'.destroyRequested = m.destroyRequested
  fixed : ∀ g, (m'.frame g).fixed = (m.frame g).fixed
  pinned : ∀ g, (m.frame g).Pinned → m.resident g → m'.resident g
  content : m.FilesApart → m.Coherent →
    m'.Coherent ∧ ∀ g ∈ m.frames, m'.content g = m.content g

namespace Traffic

variable {m m' m'' : FrameStore}

theorem refl (h : m.Invariant) : Traffic m m where
  invariant := h
  frames := rfl
  nextFrameId := rfl
  residentLimit := rfl
  destroyRequested := rfl
  fixed := fun _ ↦ rfl
  pinned := fun _ _ hr ↦ hr
  content := fun _ hc ↦ ⟨hc, fun _ _ ↦ rfl⟩

theorem field {α : Type} (h : Traffic m m') (p : Frame → α) (hp : ∀ x, p x.fixed = p x)
    (g : FrameId) : p (m'.frame g) = p (m.frame g) := by
  rw [← hp, h.fixed g, hp]

theorem source (h : Traffic m m') (g : FrameId) : (m'.frame g).source = (m.frame g).source :=
  h.field Frame.source (fun _ ↦ rfl) g

theorem fileBacking (h : Traffic m m') (g : FrameId) :
    (m'.frame g).fileBacking = (m.frame g).fileBacking :=
  h.field Frame.fileBacking (fun _ ↦ rfl) g

theorem fileOffset (h : Traffic m m') (g : FrameId) :
    (m'.frame g).fileOffset = (m.frame g).fileOffset :=
  h.field Frame.fileOffset (fun _ ↦ rfl) g

theorem pinCount (h : Traffic m m') (g : FrameId) :
    (m'.frame g).pinCount = (m.frame g).pinCount :=
  h.field Frame.pinCount (fun _ ↦ rfl) g

theorem transientPinCount (h : Traffic m m') (g : FrameId) :
    (m'.frame g).transientPinCount = (m.frame g).transientPinCount :=
  h.field Frame.transientPinCount (fun _ ↦ rfl) g

theorem pinned_iff (h : Traffic m m') (g : FrameId) :
    (m'.frame g).Pinned ↔ (m.frame g).Pinned := by
  simp only [Frame.Pinned, h.pinCount, h.transientPinCount]

theorem filesApart (h : Traffic m m') (ha : m.FilesApart) : m'.FilesApart := by
  intro f hf g hg hne hsf hsg hb
  rw [h.frames] at hf hg
  rw [h.source] at hsf hsg
  rw [h.fileBacking, h.fileBacking] at hb
  rw [h.fileOffset, h.fileOffset]
  exact ha f hf g hg hne hsf hsg hb

theorem trans (h : Traffic m m') (h' : Traffic m' m'') : Traffic m m'' where
  invariant := h'.invariant
  frames := h'.frames.trans h.frames
  nextFrameId := h'.nextFrameId.trans h.nextFrameId
  residentLimit := h'.residentLimit.trans h.residentLimit
  destroyRequested := h'.destroyRequested.trans h.destroyRequested
  fixed := fun g ↦ (h'.fixed g).trans (h.fixed g)
  pinned := fun g hp hr ↦ h'.pinned g ((h.pinned_iff g).2 hp) (h.pinned g hp hr)
  content := by
    intro ha hc
    obtain ⟨hc', hcont⟩ := h.content ha hc
    obtain ⟨hc'', hcont'⟩ := h'.content (h.filesApart ha) hc'
    refine ⟨hc'', fun g hg ↦ ?_⟩
    rw [hcont' g (h.frames ▸ hg), hcont g hg]

end Traffic

end FrameStore

end MiniMM
