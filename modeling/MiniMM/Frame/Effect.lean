import MiniMM.Frame.Step

/-!
# What the sections do to the counts

Most sections leave the counts of all frames and the list of frames alone. The others change one
count of one frame, make a frame or release one.
-/

namespace MiniMM

namespace FrameStore

variable {m m' : FrameStore} {f g : FrameId}

/-- Nothing is made, released, mapped or pinned, and a pinned frame stays resident. -/
structure Quiet (m m' : FrameStore) : Prop where
  invariant : m'.Invariant
  frames : m'.frames = m.frames
  nextFrameId : m'.nextFrameId = m.nextFrameId
  fixed : ∀ g, (m'.frame g).fixed = (m.frame g).fixed
  pinned : ∀ g, (m.frame g).Pinned → m.resident g = true → m'.resident g = true

namespace Quiet

theorem refl (h : m.Invariant) : Quiet m m := ⟨h, rfl, rfl, fun _ ↦ rfl, fun _ _ hr ↦ hr⟩

theorem field {α : Type} (h : Quiet m m') (p : Frame → α) (hp : ∀ x, p x.fixed = p x)
    (g : FrameId) : p (m'.frame g) = p (m.frame g) := by
  rw [← hp, h.fixed g, hp]

theorem mappings (h : Quiet m m') (g : FrameId) :
    (m'.frame g).mappings = (m.frame g).mappings :=
  h.field Frame.mappings (fun _ ↦ rfl) g

theorem pinCount (h : Quiet m m') (g : FrameId) :
    (m'.frame g).pinCount = (m.frame g).pinCount :=
  h.field Frame.pinCount (fun _ ↦ rfl) g

theorem transientPinCount (h : Quiet m m') (g : FrameId) :
    (m'.frame g).transientPinCount = (m.frame g).transientPinCount :=
  h.field Frame.transientPinCount (fun _ ↦ rfl) g

end Quiet

theorem Traffic.quiet (h : Traffic m m') : Quiet m m' :=
  ⟨h.invariant, h.frames, h.nextFrameId, h.fixed, h.pinned⟩

theorem Served.quiet {r : Request} {reply : Reply} (h : Served m m' f r reply) : Quiet m m' :=
  ⟨h.invariant, h.frames, h.nextFrameId, h.fixed, fun g _ hr ↦ by
    rw [resident, h.residentSlot g]
    exact hr⟩

theorem Quiet.trans {m'' : FrameStore} (h : Quiet m m') (h' : Quiet m' m'') : Quiet m m'' where
  invariant := h'.invariant
  frames := h'.frames.trans h.frames
  nextFrameId := h'.nextFrameId.trans h.nextFrameId
  fixed g := (h'.fixed g).trans (h.fixed g)
  pinned g hp hr := by
    refine h'.pinned g ?_ (h.pinned g hp hr)
    rw [Frame.Pinned, h.pinCount, h.transientPinCount]
    exact hp

theorem Answered.quiet {r : Request} {result : Option Reply} (h : m.Invariant)
    (ha : Answered m f r m' result) : Quiet m m' := by
  cases ha with
  | early _ => exact .refl h
  | served _ ht _ hs => exact ht.quiet.trans hs.quiet
  | failed ht _ => exact ht.quiet
  | waiting ht _ => exact ht.quiet

theorem quiet_files (h : m.Invariant) (host : Host) (file : FileId → FileBacking) :
    Quiet m { m with host := host, file := file } :=
  ⟨invariant_fileUpdate h host file, rfl, rfl, fun _ ↦ rfl, fun _ _ hr ↦ hr⟩

/-- The sections that leave the counts alone. -/
def Op.quiet {α : Type} : Op α → Bool
  | .create .. | .release _ | .map _ | .unmap _ | .pin .. | .unpin _ | .tryPinResident _
  | .unpinResident _ => false
  | _ => true

theorem exec_quiet {α : Type} {o : Op α} {r : α} (h : m.Invariant) (ho : o.quiet = true)
    (hl : o.Live m) (heq : m.exec o = .ok (r, m')) : Quiet m m' := by
  cases o with
  | request f r' woken =>
    rcases request_spec h (hl f rfl) r' woken with ⟨result, m1, heq', hans⟩ | heq'
    · cases heq.symm.trans heq'
      exact hans.quiet h
    · cases heq.symm.trans heq'
  | pageOut f =>
    obtain ⟨status, m1, heq', hev, -⟩ := pageOutLocked_spec h (hl f rfl)
    cases heq.symm.trans heq'
    exact hev.traffic.quiet
  | reclaim target =>
    obtain ⟨r', m1, heq', ht⟩ := reclaim_spec h target
    cases heq.symm.trans heq'
    exact ht.quiet
  | sync f =>
    simp only [exec, FrameStore.sync, Except.ok.injEq] at heq
    have hwb := (writeBackLocked_spec h (hl f rfl)).traffic.quiet
    split_ifs at heq
    · rwa [heq] at hwb
    · cases heq
      exact .refl h
  | markCold f =>
    have hinv : m'.Invariant := by
      rcases exec_invariant h (.markCold f) hl with ⟨_, _, heq', hinv⟩ | ⟨_, heq', -⟩
      · cases heq.symm.trans heq'
        exact hinv
      · cases heq.symm.trans heq'
    simp only [exec, FrameStore.markCold] at heq
    split_ifs at heq with hres <;> cases heq
    · refine ⟨hinv, rfl, rfl, fun g ↦ ?_, fun g _ hr ↦ ?_⟩
      · by_cases hgf : g = f
        · subst hgf
          simp [setFrame, Frame.fixed]
        · simp [setFrame, Function.update_of_ne hgf]
      · by_cases hgf : g = f
        · subst hgf
          simpa [resident, setFrame] using hr
        · simpa [resident, setFrame, Function.update_of_ne hgf] using hr
    · exact .refl h
  | isResident f => cases heq; exact .refl h
  | getState f => cases heq; exact .refl h
  | fileBackingResize b size =>
    simp only [exec, FrameStore.fileBackingResize] at heq
    split_ifs at heq
    · cases heq
      exact .refl h
    · cases heq
      exact .refl h
    · split at heq <;> cases heq <;> exact quiet_files h _ _
  | fileBackingSync b =>
    simp only [exec, FrameStore.fileBackingSync] at heq
    split_ifs at heq
    · cases heq
      exact .refl h
    · split at heq <;> cases heq
      · exact quiet_files h _ m.file
      · exact quiet_files h _ _
  | requestDestroy =>
    cases heq
    exact ⟨⟨h.nodup, h.fresh, h.frameCount, h.frame, h.residentCount, h.residentSlots,
      h.swapSlotCount, h.swapSlots, h.nextSwapOffset, h.refault, h.reclaim, h.pageOut⟩, rfl, rfl,
      fun _ ↦ rfl, fun _ _ hr ↦ hr⟩
  | _ => cases ho

/-- One frame has other counts, and nothing else has changed. -/
structure Recounted (m m' : FrameStore) (f : FrameId) (x : Frame) : Prop where
  invariant : m'.Invariant
  eq : m' = m.setFrame f x
  fields : x = { m.frame f with
    mappings := x.mappings, pinCount := x.pinCount, transientPinCount := x.transientPinCount }

theorem Recounted.resident {x : Frame} (h : Recounted m m' f x) (g : FrameId) :
    m'.resident g = m.resident g := by
  rw [h.eq]
  by_cases hgf : g = f
  · subst hgf
    have hx := congrArg Frame.residentSlot h.fields
    simpa [FrameStore.resident, setFrame] using congrArg Option.isSome hx
  · simp [FrameStore.resident, setFrame, Function.update_of_ne hgf]

variable {r : Unit}

theorem exec_map (h : m.Invariant) (hf : f ∈ m.frames) (heq : m.exec (.map f) = .ok (r, m')) :
    Recounted m m' f { m.frame f with mappings := (m.frame f).mappings + 1 } := by
  simp only [exec, FrameStore.map] at heq
  split_ifs at heq <;> cases heq
  exact ⟨invariant_pinning h hf _ rfl (h.frame f hf).transient, rfl, rfl⟩

theorem exec_unmap (h : m.Invariant) (hf : f ∈ m.frames) (heq : m.exec (.unmap f) = .ok (r, m')) :
    Recounted m m' f { m.frame f with mappings := (m.frame f).mappings - 1 } := by
  simp only [exec, FrameStore.unmap] at heq
  split_ifs at heq <;> cases heq
  exact ⟨invariant_pinning h hf _ rfl (h.frame f hf).transient, rfl, rfl⟩

theorem exec_pin {site : PinSite} (h : m.Invariant) (hf : f ∈ m.frames)
    (heq : m.exec (.pin site f) = .ok (r, m')) :
    Recounted m m' f { m.frame f with pinCount := (m.frame f).pinCount + 1 } := by
  simp only [exec, FrameStore.pin] at heq
  split_ifs at heq <;> cases heq
  exact ⟨invariant_pinning h hf _ rfl (h.frame f hf).transient, rfl, rfl⟩

theorem exec_unpin (h : m.Invariant) (hf : f ∈ m.frames)
    (heq : m.exec (.unpin f) = .ok (r, m')) :
    Recounted m m' f { m.frame f with pinCount := (m.frame f).pinCount - 1 } := by
  simp only [exec, FrameStore.unpin] at heq
  split_ifs at heq with hzero <;> cases heq
  · exact ⟨invariant_pinning h hf _ rfl (h.frame f hf).transient, rfl, rfl⟩
  · have hx : { m.frame f with pinCount := (m.frame f).pinCount - 1 } = m.frame f := by
      rw [not_not.1 hzero]
      exact (congrArg (fun n ↦ { m.frame f with pinCount := n }) (not_not.1 hzero)).symm
    rw [hx]
    exact ⟨h, (by rw [setFrame, Function.update_eq_self]), rfl⟩

theorem exec_tryPinResident {pinned : Bool} (h : m.Invariant) (hf : f ∈ m.frames)
    (heq : m.exec (.tryPinResident f) = .ok (pinned, m')) :
    pinned = m.resident f ∧ if pinned = true then
      Recounted m m' f
        { m.frame f with transientPinCount := (m.frame f).transientPinCount + 1 }
    else m' = m := by
  simp only [exec, FrameStore.tryPinResident] at heq
  split_ifs at heq with hnone hmax <;> cases heq
  · simp [FrameStore.resident, hnone]
  · refine ⟨?_, ?_⟩
    · rw [FrameStore.resident, Option.isSome_iff_ne_none.2 hnone]
    · rw [if_pos rfl]
      exact ⟨invariant_pinning h hf _ rfl fun _ ↦ Option.isSome_iff_ne_none.2 hnone, rfl, rfl⟩

theorem exec_unpinResident (h : m.Invariant) (hf : f ∈ m.frames)
    (heq : m.exec (.unpinResident f) = .ok (r, m')) :
    Recounted m m' f
      { m.frame f with transientPinCount := (m.frame f).transientPinCount - 1 } := by
  simp only [exec, FrameStore.unpinResident] at heq
  split_ifs at heq with hzero <;> cases heq
  exact ⟨invariant_pinning h hf _ rfl fun _ ↦ (h.frame f hf).transient hzero, rfl, rfl⟩

theorem exec_release (h : m.Invariant) (hf : f ∈ m.frames)
    (heq : m.exec (.release f) = .ok (r, m')) : Released m m' f := by
  obtain ⟨m1, heq', hrel⟩ := releaseLocked_spec h hf
  rw [exec, heq'] at heq
  cases heq
  exact hrel

theorem Released.counts (h : Released m m' f) (g : FrameId) :
    (m'.frame g).mappings = (m.frame g).mappings ∧ (m'.frame g).pinCount = (m.frame g).pinCount ∧
      (m'.frame g).transientPinCount = (m.frame g).transientPinCount := by
  have hfield : ∀ {α : Type} (p : Frame → α), (∀ x, p x.fixed = p x) →
      p (m'.frame g) = p (m.frame g) := fun p hp ↦ by rw [← hp, h.fixed g, hp]
  exact ⟨hfield Frame.mappings fun _ ↦ rfl, hfield Frame.pinCount fun _ ↦ rfl,
    hfield Frame.transientPinCount fun _ ↦ rfl⟩

theorem exec_create {source : FrameSource} {b : FileId} {offset : ℕ} {shared : Bool}
    {status : Status} (h : m.Invariant)
    (heq : m.exec (.create source b offset shared) = .ok ((status, f), m')) :
    m'.Invariant ∧
      if status = .ok then f = m.nextFrameId ∧ m'.nextFrameId = f + 1 ∧
        m'.frames = f :: m.frames ∧ m'.frame = Function.update m.frame f
          { source := source, fileBacking := b, fileOffset := offset, fileShared := shared }
      else m'.nextFrameId = m.nextFrameId ∧ m'.frames = m.frames ∧ m'.frame = m.frame := by
  have hinv := invariant_createFrame h source b offset shared
  simp only [exec] at heq
  generalize hr : m.createFrame source b offset shared = r at heq hinv
  obtain ⟨status', f', m1⟩ := r
  cases heq
  refine ⟨hinv, ?_⟩
  unfold createFrame at hr
  split at hr
  · cases hr
    simp
  · dsimp only at hr
    split_ifs at hr <;> cases hr <;> simp

end FrameStore

end MiniMM
