import MiniMM.Frame.PageIn

/-!
# The store as a state machine

Each locked section of the frame store is one step.  A call that waits for a
transient pin takes several steps, between which any other steps may happen.
-/

namespace MiniMM

open Gather

namespace FrameStore

/-- The argument checks of `minimm_frame_read` and `minimm_frame_write`: the
reply of a call that never takes the lock. -/
def Request.early : Request → Option Reply
  | .read offset length =>
    if offset > pageSize ∨ length > pageSize - offset then some { status := .invalidArgument }
    else if length = 0 then some { status := .ok } else none
  | .write offset data =>
    if offset > pageSize ∨ data.length > pageSize - offset then
      some { status := .invalidArgument }
    else if data.length = 0 then some { status := .ok } else none
  | .ensureResident => none

/-- A request with its argument checks. -/
def request (m : FrameStore) (f : FrameId) (r : Request) (woken : Bool) :
    Except Abort (Option Reply × FrameStore) :=
  match r.early with
  | some reply => .ok (some reply, m)
  | none => m.requestLocked f r woken

/-- `minimm_frame_state_t`. -/
structure FrameState where
  resident : Bool
  dirty : Bool
  pinned : Bool
  cold : Bool
  deriving DecidableEq, Repr

/-- `minimm_frame_get_state`. -/
def getState (m : FrameStore) (f : FrameId) : FrameState where
  resident := m.resident f
  dirty := (m.frame f).dirty
  pinned := (m.frame f).pinCount ≠ 0
  cold := (m.frame f).cold

/-- The call sites of `minimm_frame_pin`, which all lie in the page table. -/
inductive PinSite where
  | map
  | commitAttributes
  | replaceFrame
  deriving DecidableEq, Repr

/-- The locked sections, indexed by what they return. -/
inductive Op : Type → Type where
  | create (source : FrameSource) (fileBacking : FileId) (fileOffset : ℕ) (shared : Bool) :
      Op (Status × FrameId)
  | request (f : FrameId) (r : Request) (woken : Bool) : Op (Option Reply)
  | pageOut (f : FrameId) : Op Status
  | reclaim (targetPages : ℕ) : Op ReclaimResult
  | release (f : FrameId) : Op Unit
  | map (f : FrameId) : Op Unit
  | unmap (f : FrameId) : Op Unit
  | pin (site : PinSite) (f : FrameId) : Op Unit
  | unpin (f : FrameId) : Op Unit
  | tryPinResident (f : FrameId) : Op Bool
  | unpinResident (f : FrameId) : Op Unit
  | sync (f : FrameId) : Op Status
  | markCold (f : FrameId) : Op Unit
  | isResident (f : FrameId) : Op Bool
  | getState (f : FrameId) : Op FrameState
  | fileBackingResize (b : FileId) (size : ℕ) : Op Status
  | fileBackingSync (b : FileId) : Op Status
  | requestDestroy : Op Unit

/-- The frame a section works on. -/
def Op.frame? {α : Type} : Op α → Option FrameId
  | .request f _ _ | .pageOut f | .release f | .map f | .unmap f | .pin _ f | .unpin f
  | .tryPinResident f | .unpinResident f | .sync f | .markCold f | .isResident f
  | .getState f => some f
  | .create .. | .reclaim _ | .fileBackingResize .. | .fileBackingSync _
  | .requestDestroy => none

/-- Run one section. -/
def exec {α : Type} (m : FrameStore) : Op α → Except Abort (α × FrameStore)
  | .create source b offset shared =>
    let (status, f, m) := m.createFrame source b offset shared
    .ok ((status, f), m)
  | .request f r woken => m.request f r woken
  | .pageOut f => m.pageOutLocked f
  | .reclaim target => m.reclaim target
  | .release f => (m.releaseLocked f).map ((), ·)
  | .map f => (m.map f).map ((), ·)
  | .unmap f => (m.unmap f).map ((), ·)
  | .pin _ f => (m.pin f).map ((), ·)
  | .unpin f => .ok ((), m.unpin f)
  | .tryPinResident f => m.tryPinResident f
  | .unpinResident f => (m.unpinResident f).map ((), ·)
  | .sync f => .ok (m.sync f)
  | .markCold f => .ok ((), m.markCold f)
  | .isResident f => .ok (m.resident f, m)
  | .getState f => .ok (m.getState f, m)
  | .fileBackingResize b size => .ok (m.fileBackingResize b size)
  | .fileBackingSync b => .ok (m.fileBackingSync b)
  | .requestDestroy => .ok ((), m.requestDestroy)

/-- A section may be called on a frame that is still live. -/
def Op.Live {α : Type} (o : Op α) (m : FrameStore) : Prop :=
  ∀ f, o.frame? = some f → f ∈ m.frames

variable {m m' : FrameStore} {f g : FrameId}

/-! ## The invariant, section by section -/

theorem Invariant.setFrame_counts (h : m.Invariant) (hf : f ∈ m.frames) {x : Frame}
    (hres : x.residentSlot = (m.frame f).residentSlot)
    (hswap : x.swapSlot = (m.frame f).swapSlot)
    (hpend : x.reclaimPending = (m.frame f).reclaimPending)
    (hx : x.Ok) : (m.setFrame f x).Invariant :=
  h.replace hf hx ⟨rfl, rfl, rfl, rfl, rfl, rfl, rfl, rfl⟩
    (Balanced.of_slots_eq h hres hswap hpend rfl rfl rfl rfl rfl rfl rfl)

theorem invariant_createFrame (h : m.Invariant) (source : FrameSource) (b : FileId)
    (offset : ℕ) (shared : Bool) : (m.createFrame source b offset shared).2.2.Invariant := by
  unfold createFrame
  split
  · exact (Traffic.bookkeeping h _ _ _).invariant
  · rename_i host _
    have h' : FrameStore.Invariant { m with host := host } :=
      (Traffic.bookkeeping h host _ _).invariant
    dsimp only
    split_ifs with hd hn
    · exact h'
    · exact h'
    · have hnew : m.nextFrameId ∉ m.frames := fun hmem ↦ lt_irrefl _ (h.fresh _ hmem)
      refine
        { nodup := List.nodup_cons.2 ⟨hnew, h.nodup⟩
          fresh := ?_
          frameCount := by simp [h.frameCount]
          frame := ?_
          residentCount := h.residentCount
          residentSlots := ?_
          swapSlotCount := h.swapSlotCount
          swapSlots := ?_
          nextSwapOffset := h.nextSwapOffset
          refault := ?_
          reclaim := h.reclaim
          pageOut := h.pageOut }
      · intro g hg
        rcases List.mem_cons.1 hg with rfl | hg
        · exact Nat.lt_succ_self _
        · exact (h.fresh g hg).trans (Nat.lt_succ_self _)
      · intro g hg
        rcases List.mem_cons.1 hg with rfl | hg
        · simp only [Function.update_self]
          exact ⟨nofun, nofun, fun ht ↦ absurd rfl ht, nofun, fun _ _ ↦ rfl⟩
        · have hne : g ≠ m.nextFrameId := fun heq ↦ hnew (heq ▸ hg)
          simp only [Function.update_of_ne hne]
          exact h.frame g hg
      · simp only [residentSlots, gather_cons, Function.update_self, opt_none, zero_add,
          gather_update_of_notMem hnew]
        exact h.residentSlots
      · simp only [swapSlots, gather_cons, Function.update_self, opt_none, zero_add,
          gather_update_of_notMem hnew]
        exact h.swapSlots
      · simp only [pendingCount, gather_cons, Function.update_self,
          gather_update_of_notMem hnew]
        simpa [Frame.pending, pendingCount] using h.refault

/-- What a request does once the frame is resident. -/
structure Served (m m' : FrameStore) (f : FrameId) (r : Request) (reply : Reply) : Prop where
  invariant : m'.Invariant
  ok : reply.status = .ok
  frames : m'.frames = m.frames
  nextFrameId : m'.nextFrameId = m.nextFrameId
  residentLimit : m'.residentLimit = m.residentLimit
  destroyRequested : m'.destroyRequested = m.destroyRequested
  fixed : ∀ g, (m'.frame g).fixed = (m.frame g).fixed
  residentSlot : ∀ g, (m'.frame g).residentSlot = (m.frame g).residentSlot
  coherent : m.Coherent → m'.Coherent
  others : ∀ g ∈ m.frames, g ≠ f → m'.content g = m.content g
  self : m'.content f = match r with
    | .write offset data => ByteFile.overwrite (m.content f) offset data
    | _ => m.content f
  data : ∀ offset length, r = .read offset length →
    reply.data = ByteFile.slice (m.content f) offset length

theorem data_eq_content {slot : ℕ} (hslot : (m.frame f).residentSlot = some slot) :
    m.data f = m.content f := by
  simp [data, content, hslot]

theorem serveLocked_spec (h : m.Invariant) (hf : f ∈ m.frames) (hres : m.resident f)
    (pagedIn : Bool) (r : Request) :
    Served m (m.serveLocked f pagedIn r).2 f r (m.serveLocked f pagedIn r).1 := by
  obtain ⟨slot, hslot⟩ := Option.isSome_iff_exists.1 hres
  have hok := h.frame f hf
  cases r with
  | read offset length =>
    refine ⟨h, rfl, rfl, rfl, rfl, rfl, fun _ ↦ rfl, fun _ ↦ rfl, id, fun _ _ _ ↦ rfl, rfl, ?_⟩
    rintro _ _ ⟨⟩
    exact congrArg (ByteFile.slice · offset length) (data_eq_content hslot)
  | ensureResident =>
    refine ⟨h, rfl, rfl, rfl, rfl, rfl, fun _ ↦ rfl, fun _ ↦ rfl, id, fun _ _ _ ↦ rfl, rfl, ?_⟩
    rintro _ _ ⟨⟩
  | write offset bytes =>
    have hget : (m.frame f).residentSlot.getD 0 = slot := by rw [hslot]; rfl
    have hframe : ∀ g, g ≠ f → (m.serveLocked f pagedIn (.write offset bytes)).2.frame g =
        m.frame g := fun g hgf ↦ Function.update_of_ne hgf _ _
    have hback : ∀ g, (m.serveLocked f pagedIn (.write offset bytes)).2.backing g =
        m.backing g := by
      intro g
      by_cases hgf : g = f
      · subst hgf
        simp [serveLocked, backing]
      · simp [serveLocked, backing, Function.update_of_ne hgf]
    have hothers : ∀ g ∈ m.frames, g ≠ f →
        (m.serveLocked f pagedIn (.write offset bytes)).2.content g = m.content g := by
      intro g hg hgf
      refine content_congr (hframe g hgf) (fun slot' hslot' ↦ ?_) (hback g)
      have hne : slot' ≠ slot := fun heq ↦
        h.residentSlot_ne hf hg (Ne.symm hgf) hslot (heq ▸ hslot')
      simp only [serveLocked, hget]
      rw [Function.update_of_ne hne]
    refine ⟨?_, rfl, rfl, rfl, rfl, rfl, fun g ↦ ?_, fun g ↦ ?_, ?_, hothers, ?_, ?_⟩
    · exact h.replace (x := { m.frame f with dirty := true }) hf
        (hok.of_eq rfl hok.cold (fun _ ↦ hres) hok.transient rfl hok.shared)
        ⟨rfl, rfl, rfl, rfl, rfl, rfl, rfl, rfl⟩
        (Balanced.of_slots_eq h rfl rfl rfl rfl rfl rfl rfl rfl rfl rfl)
    · by_cases hgf : g = f
      · subst hgf
        simp [serveLocked, Frame.fixed]
      · rw [hframe g hgf]
    · by_cases hgf : g = f
      · subst hgf
        simp [serveLocked]
      · rw [hframe g hgf]
    · intro hc g hg hd
      by_cases hgf : g = f
      · subst hgf
        simp [serveLocked] at hd
      · rw [hframe g hgf] at hd
        rw [hback g, hothers g hg hgf, hc g hg hd]
    · simp only [content, serveLocked, Function.update_self, hslot, Option.getD_some, data]
    · rintro _ _ ⟨⟩

/-- How a section of a request ends. -/
inductive Answered (m : FrameStore) (f : FrameId) (r : Request) :
    FrameStore → Option Reply → Prop where
  | early {reply : Reply} : r.early = some reply → Answered m f r m (some reply)
  | served {m1 m' : FrameStore} {reply : Reply} : r.early = none → Traffic m m1 →
      m1.resident f → Served m1 m' f r reply → Answered m f r m' (some reply)
  | failed {m' : FrameStore} {reply : Reply} : Traffic m m' → reply.status ≠ .ok →
      Answered m f r m' (some reply)
  | waiting {m' : FrameStore} : Traffic m m' → m'.hasTransientVictimLocked f →
      Answered m f r m' none

theorem passLocked_spec {m0 : FrameStore} {r : Request} (hr : r.early = none)
    (h0 : Traffic m0 m) (hf : f ∈ m.frames) :
    (∃ result m', m.passLocked f r = .ok (result, m') ∧ Answered m0 f r m' result) ∨
      m.passLocked f r = .error .waiterCount := by
  unfold passLocked
  rcases makeResidentLocked_spec h0.invariant hf with ⟨result, m1, heq, hin⟩ | heq
  · left
    rw [heq]
    have htraffic := h0.trans hin.traffic
    have hf1 : f ∈ m1.frames := by rw [hin.traffic.frames]; exact hf
    dsimp only [Except.bind, bind]
    cases result with
    | resident pagedIn =>
      have hres := hin.resident pagedIn rfl
      exact ⟨_, _, rfl, .served hr htraffic hres
        (serveLocked_spec htraffic.invariant hf1 hres pagedIn r)⟩
    | failed status => exact ⟨_, _, rfl, .failed htraffic (hin.failed status rfl)⟩
    | noFreeSlot => exact absurd rfl hin.slot
    | waiting => exact ⟨_, _, rfl, .waiting htraffic (hin.waiting rfl)⟩
  · right
    rw [heq]
    rfl

theorem request_spec (h : m.Invariant) (hf : f ∈ m.frames) (r : Request) (woken : Bool) :
    (∃ result m', m.request f r woken = .ok (result, m') ∧ Answered m f r m' result) ∨
      m.request f r woken = .error .waiterCount := by
  unfold request
  split
  · rename_i reply hearly
    exact Or.inl ⟨_, _, rfl, .early hearly⟩
  · rename_i hearly
    unfold requestLocked
    cases woken with
    | false => exact passLocked_spec hearly (Traffic.refl h) hf
    | true =>
      have hwake : Traffic m m.wakeLocked.2 := Traffic.bookkeeping h _ _ _
      have hframes : m.wakeLocked.2.frames = m.frames := rfl
      simp only [if_true]
      generalize m.wakeLocked = w at *
      obtain ⟨success, m1⟩ := w
      cases success with
      | false => exact Or.inl ⟨_, _, rfl, .failed hwake nofun⟩
      | true => exact passLocked_spec hearly hwake (hframes ▸ hf)

theorem reclaimLoop_spec (left : ℕ) (r : ReclaimResult) {m0 : FrameStore}
    (h0 : Traffic m0 m) :
    ∃ r' m', reclaimLoop left r m = .ok (r', m') ∧ Traffic m0 m' := by
  induction left generalizing r m with
  | zero => exact ⟨r, m, rfl, h0⟩
  | succ left ih =>
    have hscan := h0.trans (traffic_selectVictimLocked h0.invariant none)
    have hvictim : ∀ g, (m.selectVictimLocked none).1 = some g →
        g ∈ m.frames ∧ m.Evictable none g := fun _ ↦ selectVictimLocked_spec
    have hframes : (m.selectVictimLocked none).2.2.frames = m.frames := rfl
    unfold reclaimLoop
    generalize m.selectVictimLocked none = v at *
    obtain ⟨candidate, scanned, m1⟩ := v
    cases candidate with
    | none => exact ⟨_, _, rfl, hscan⟩
    | some victim =>
      obtain ⟨status, m2, heq, hev⟩ :=
        reclaimPageLocked_spec hscan.invariant (hframes ▸ (hvictim victim rfl).1)
      dsimp only
      rw [heq]
      dsimp only [Except.bind, bind]
      split_ifs
      · exact ih _ (hscan.trans hev.traffic)
      · exact ⟨_, _, rfl, hscan.trans hev.traffic⟩

theorem reclaim_spec (h : m.Invariant) (target : ℕ) :
    ∃ r m', m.reclaim target = .ok (r, m') ∧ Traffic m m' := by
  unfold reclaim
  split_ifs
  · exact ⟨_, _, rfl, Traffic.refl h⟩
  · exact reclaimLoop_spec target _ (Traffic.refl h)

/-! ## Release -/

/-- The store without the frame `f`. -/
def unlinked (m : FrameStore) (f : FrameId) : FrameStore :=
  { m with
    frames := m.frames.erase f
    frameCount := m.frameCount - 1
    frame := Function.update m.frame f { m.frame f with residentSlot := none, swapSlot := none }
    freeResidentSlots := (m.frame f).residentSlot.toList ++ m.freeResidentSlots
    residentCount := m.residentCount - (m.frame f).residentSlot.toList.length
    freeSwapSlots := (m.frame f).swapSlot.toList ++ m.freeSwapSlots
    swapSlotCount := m.swapSlotCount - (m.frame f).swapSlot.toList.length }

theorem coe_toList {α : Type*} (o : Option α) : (o.toList : Multiset α) = opt o := by
  cases o <;> rfl

theorem gather_unlink {sel : Frame → Option ℕ} {val : FrameId → Frame} {keys : List FrameId}
    {free : List ℕ} {whole : Multiset ℕ} {x : Frame} (hn : keys.Nodup) (hf : f ∈ keys)
    (hwhole : ↑free + gather sel val keys = whole) :
    (((sel (val f)).toList ++ free : List ℕ) : Multiset ℕ) +
      gather sel (Function.update val f x) (keys.erase f) = whole := by
  rw [gather_update_of_notMem hn.not_mem_erase, ← Multiset.coe_add, coe_toList,
    add_comm (opt _), add_assoc, ← gather_eq_add_erase hf, hwhole]

theorem invariant_unlinked (h : m.Invariant) (hf : f ∈ m.frames) :
    (m.unlinked f).Invariant where
  nodup := h.nodup.erase f
  fresh := fun g hg ↦ h.fresh g (List.mem_of_mem_erase hg)
  frameCount := by simp [unlinked, h.frameCount, List.length_erase_of_mem hf]
  frame := by
    intro g hg
    have hgf : g ≠ f := fun heq ↦ h.nodup.not_mem_erase (heq ▸ hg)
    simp only [unlinked, Function.update_of_ne hgf]
    exact h.frame g (List.mem_of_mem_erase hg)
  residentCount := by
    have hcount := h.residentCount
    cases hslot : (m.frame f).residentSlot with
    | none => simpa [unlinked, hslot] using hcount
    | some slot =>
      have hpos := h.residentCount_pos hf hslot
      simp only [unlinked, hslot, Option.toList_some, List.length_append, List.length_singleton]
      omega
  residentSlots := gather_unlink h.nodup hf h.residentSlots
  swapSlotCount := by
    have hcount := h.swapSlotCount
    cases hslot : (m.frame f).swapSlot with
    | none => simpa [unlinked, hslot] using hcount
    | some offset =>
      have hpos := h.swapSlotCount_pos hf hslot
      simp only [unlinked, hslot, Option.toList_some, List.length_append, List.length_singleton]
      omega
  swapSlots := gather_unlink h.nodup hf h.swapSlots
  nextSwapOffset := h.nextSwapOffset
  refault := by
    have hold := h.refault
    unfold pendingCount at hold ⊢
    simp only [unlinked]
    rw [gather_eq_add_erase hf, Multiset.card_add] at hold
    rw [gather_update_of_notMem h.nodup.not_mem_erase]
    omega
  reclaim := h.reclaim
  pageOut := h.pageOut

/-- What releasing the last reference of a frame does. -/
structure Released (m m' : FrameStore) (f : FrameId) : Prop where
  invariant : m'.Invariant
  frames : m'.frames = m.frames.erase f
  nextFrameId : m'.nextFrameId = m.nextFrameId
  residentLimit : m'.residentLimit = m.residentLimit
  destroyRequested : m'.destroyRequested = m.destroyRequested
  others : ∀ g, g ≠ f → m'.frame g = m.frame g
  fixed : ∀ g, (m'.frame g).fixed = (m.frame g).fixed
  content : m.FilesApart → m.Coherent →
    m'.Coherent ∧ ∀ g ∈ m.frames, g ≠ f → m'.content g = m.content g

theorem released_unlinked (h : m.Invariant) (hf : f ∈ m.frames) :
    Released m (m.unlinked f) f := by
  have hframe : ∀ g, g ≠ f → (m.unlinked f).frame g = m.frame g := fun g hgf ↦
    Function.update_of_ne hgf _ _
  have hback : ∀ g, g ≠ f → (m.unlinked f).backing g = m.backing g := by
    intro g hgf
    simp only [backing, hframe g hgf]
    rfl
  have hcont : ∀ g, g ≠ f → (m.unlinked f).content g = m.content g := fun g hgf ↦
    content_congr (hframe g hgf) (fun _ _ ↦ rfl) (hback g hgf)
  refine ⟨invariant_unlinked h hf, rfl, rfl, rfl, rfl, hframe, fun g ↦ ?_,
    fun _ hc ↦ ⟨?_, ?_⟩⟩
  · by_cases hgf : g = f
    · subst hgf
      simp [unlinked, Frame.fixed]
    · rw [hframe g hgf]
  · intro g hg hd
    have hgf : g ≠ f := fun heq ↦ h.nodup.not_mem_erase (heq ▸ hg)
    rw [hframe g hgf] at hd
    rw [hback g hgf, hcont g hgf, hc g (List.mem_of_mem_erase hg) hd]
  · exact fun g _ hgf ↦ hcont g hgf

theorem release_residentSlot_eq
    (hslot : ∀ slot, (m.frame f).residentSlot = some slot →
      slot < m.residentLimit ∧ m.freeResidentSlots.length < m.residentLimit ∧
        0 < m.residentCount) :
    (if m.resident f then m.releaseResidentSlotLocked f else .ok m) = .ok { m with
      frame := Function.update m.frame f { m.frame f with residentSlot := none }
      freeResidentSlots := (m.frame f).residentSlot.toList ++ m.freeResidentSlots
      residentCount := m.residentCount - (m.frame f).residentSlot.toList.length } := by
  unfold resident releaseResidentSlotLocked
  dsimp only
  cases hs : (m.frame f).residentSlot with
  | none =>
    have hself : Function.update m.frame f { m.frame f with residentSlot := none } = m.frame := by
      rw [← hs]
      exact Function.update_eq_self f m.frame
    simp [hself]
  | some slot =>
    obtain ⟨hlt, hfree, hpos⟩ := hslot slot hs
    simp only [Option.isSome_some, if_true]
    rw [if_neg (by omega)]
    rfl

theorem releaseSwapSlotLocked_eq
    (hslot : ∀ offset, (m.frame f).swapSlot = some offset → 0 < m.swapSlotCount) :
    m.releaseSwapSlotLocked f = .ok { m with
      frame := Function.update m.frame f { m.frame f with swapSlot := none }
      freeSwapSlots := (m.frame f).swapSlot.toList ++ m.freeSwapSlots
      swapSlotCount := m.swapSlotCount - (m.frame f).swapSlot.toList.length } := by
  unfold releaseSwapSlotLocked
  dsimp only
  cases hs : (m.frame f).swapSlot with
  | none => simp [update_swapSlot_self hs]
  | some offset =>
    have hpos := hslot offset hs
    dsimp only
    rw [if_neg (by omega)]
    rfl

theorem unlinkLocked_eq (h : m.Invariant) (hf : f ∈ m.frames) :
    m.unlinkLocked f = .ok (m.unlinked f) := by
  have hcount := h.residentCount
  unfold unlinkLocked
  dsimp only
  rw [release_residentSlot_eq]
  · dsimp only [Except.bind]
    rw [releaseSwapSlotLocked_eq]
    · simp [unlinked]
    · intro offset hoffset
      have hold : (m.frame f).swapSlot = some offset := by simpa using hoffset
      exact h.swapSlotCount_pos hf hold
  · intro slot hslot
    have hpos := h.residentCount_pos hf hslot
    have hlt := h.residentSlot_lt hf hslot
    exact ⟨hlt, by simp only; omega, hpos⟩

theorem Released.of_traffic {m1 : FrameStore} (htraffic : Traffic m m1)
    (hothers : ∀ g, g ≠ f → m1.frame g = m.frame g) (h : Released m1 m' f) :
    Released m m' f where
  invariant := h.invariant
  frames := by rw [h.frames, htraffic.frames]
  nextFrameId := h.nextFrameId.trans htraffic.nextFrameId
  residentLimit := h.residentLimit.trans htraffic.residentLimit
  destroyRequested := h.destroyRequested.trans htraffic.destroyRequested
  others := fun g hgf ↦ (h.others g hgf).trans (hothers g hgf)
  fixed := fun g ↦ (h.fixed g).trans (htraffic.fixed g)
  content := by
    intro ha hc
    obtain ⟨hc1, hcont1⟩ := htraffic.content ha hc
    obtain ⟨hc', hcont'⟩ := h.content (htraffic.filesApart ha) hc1
    refine ⟨hc', fun g hg hgf ↦ ?_⟩
    rw [hcont' g (htraffic.frames ▸ hg) hgf, hcont1 g hg]

theorem releaseLocked_spec (h : m.Invariant) (hf : f ∈ m.frames) :
    ∃ m', m.releaseLocked f = .ok m' ∧ Released m m' f := by
  obtain ⟨m1, heq, htraffic, hothers⟩ : ∃ m1,
      (if (m.frame f).source = .file ∧ (m.frame f).fileShared ∧ (m.frame f).dirty then
        (m.writeBackLocked f).2 else m) = m1 ∧ Traffic m m1 ∧
      ∀ g, g ≠ f → m1.frame g = m.frame g := by
    split_ifs
    · have hwb := writeBackLocked_spec h hf
      exact ⟨_, rfl, hwb.traffic, hwb.others⟩
    · exact ⟨_, rfl, Traffic.refl h, fun _ _ ↦ rfl⟩
  have hf1 : f ∈ m1.frames := by rw [htraffic.frames]; exact hf
  refine ⟨m1.unlinked f, ?_, .of_traffic htraffic hothers
    (released_unlinked htraffic.invariant hf1)⟩
  unfold releaseLocked
  simp only [heq, hf1, if_true]
  exact unlinkLocked_eq htraffic.invariant hf1

/-! ## Every section keeps the invariant -/

theorem invariant_pinning (h : m.Invariant) (hf : f ∈ m.frames) (x : Frame)
    (hx : x = { m.frame f with
      mappings := x.mappings, pinCount := x.pinCount, transientPinCount := x.transientPinCount })
    (ht : x.transientPinCount ≠ 0 → m.resident f) : (m.setFrame f x).Invariant := by
  have hok := h.frame f hf
  refine h.setFrame_counts hf ?_ ?_ ?_ (hok.of_eq ?_ ?_ ?_ ht ?_ ?_)
  all_goals rw [hx]
  · exact hok.cold
  · exact hok.dirty
  · exact hok.shared

/-- The result of a section when it does not abort, and the aborts it may reach. -/
def Outcome {α : Type} (x : Except Abort (α × FrameStore)) (P : α → FrameStore → Prop) : Prop :=
  (∃ r m', x = .ok (r, m') ∧ P r m') ∨
    ∃ a, x = .error a ∧ a ≠ .residentSlot ∧ a ≠ .swapSlotCount

theorem Outcome.of_ok {α : Type} {x : Except Abort (α × FrameStore)}
    {P : α → FrameStore → Prop} {r : α} {m' : FrameStore} (heq : x = .ok (r, m'))
    (hP : P r m') : Outcome x P :=
  Or.inl ⟨r, m', heq, hP⟩

theorem Outcome.of_error {α : Type} {x : Except Abort (α × FrameStore)}
    {P : α → FrameStore → Prop} {a : Abort} (heq : x = .error a)
    (ha : a ≠ .residentSlot ∧ a ≠ .swapSlotCount) : Outcome x P :=
  Or.inr ⟨a, heq, ha⟩

theorem Answered.invariant {r : Request} {result : Option Reply} (h : m.Invariant)
    (ha : Answered m f r m' result) : m'.Invariant := by
  cases ha with
  | early _ => exact h
  | served _ _ _ hs => exact hs.invariant
  | failed ht _ => exact ht.invariant
  | waiting ht _ => exact ht.invariant

theorem invariant_fileUpdate (h : m.Invariant) (host : Host) (file : FileId → FileBacking) :
    FrameStore.Invariant { m with host := host, file := file } :=
  ⟨h.nodup, h.fresh, h.frameCount, h.frame, h.residentCount, h.residentSlots,
    h.swapSlotCount, h.swapSlots, h.nextSwapOffset, h.refault, h.reclaim, h.pageOut⟩

theorem exec_invariant {α : Type} (h : m.Invariant) (o : Op α) (hl : o.Live m) :
    Outcome (m.exec o) fun _ m' ↦ m'.Invariant := by
  cases o with
  | create source b offset shared =>
    exact .of_ok rfl (invariant_createFrame h source b offset shared)
  | request f r woken =>
    rcases request_spec h (hl f rfl) r woken with ⟨result, m', heq, ha⟩ | heq
    · exact .of_ok heq (ha.invariant h)
    · exact .of_error heq (by decide)
  | pageOut f =>
    obtain ⟨status, m', heq, hev, -⟩ := pageOutLocked_spec h (hl f rfl)
    exact .of_ok heq hev.traffic.invariant
  | reclaim target =>
    obtain ⟨r, m', heq, ht⟩ := reclaim_spec h target
    exact .of_ok heq ht.invariant
  | release f =>
    obtain ⟨m', heq, hr⟩ := releaseLocked_spec h (hl f rfl)
    exact .of_ok (by rw [exec, heq]; rfl) hr.invariant
  | map f =>
    simp only [exec, FrameStore.map]
    split_ifs
    · exact .of_error rfl (by decide)
    · exact .of_ok rfl (invariant_pinning h (hl f rfl) _ rfl (h.frame f (hl f rfl)).transient)
  | unmap f =>
    simp only [exec, FrameStore.unmap]
    split_ifs
    · exact .of_error rfl (by decide)
    · exact .of_ok rfl (invariant_pinning h (hl f rfl) _ rfl (h.frame f (hl f rfl)).transient)
  | pin site f =>
    simp only [exec, FrameStore.pin]
    split_ifs
    · exact .of_error rfl (by decide)
    · exact .of_ok rfl (invariant_pinning h (hl f rfl) _ rfl (h.frame f (hl f rfl)).transient)
  | unpin f =>
    simp only [exec, FrameStore.unpin]
    split_ifs
    · exact .of_ok rfl (invariant_pinning h (hl f rfl) _ rfl (h.frame f (hl f rfl)).transient)
    · exact .of_ok rfl h
  | tryPinResident f =>
    simp only [exec, FrameStore.tryPinResident]
    split_ifs with hnone
    · exact .of_ok rfl h
    · exact .of_error rfl (by decide)
    · exact .of_ok rfl (invariant_pinning h (hl f rfl) _ rfl
        fun _ ↦ Option.isSome_iff_ne_none.2 hnone)
  | unpinResident f =>
    simp only [exec, FrameStore.unpinResident]
    split_ifs with hzero
    · exact .of_error rfl (by decide)
    · exact .of_ok rfl (invariant_pinning h (hl f rfl) _ rfl
        fun _ ↦ (h.frame f (hl f rfl)).transient hzero)
  | sync f =>
    simp only [exec, FrameStore.sync]
    split_ifs
    · exact .of_ok rfl (writeBackLocked_spec h (hl f rfl)).traffic.invariant
    · exact .of_ok rfl h
  | markCold f =>
    have hok := h.frame f (hl f rfl)
    simp only [exec, FrameStore.markCold]
    split_ifs with hres
    · exact .of_ok rfl (h.setFrame_counts (hl f rfl) rfl rfl rfl
        (hok.of_eq rfl (fun _ ↦ hres) hok.dirty hok.transient rfl hok.shared))
    · exact .of_ok rfl h
  | isResident f => exact .of_ok rfl h
  | getState f => exact .of_ok rfl h
  | fileBackingResize b size =>
    simp only [exec, FrameStore.fileBackingResize]
    split_ifs
    · exact .of_ok rfl h
    · exact .of_ok rfl h
    · split
      · exact .of_ok rfl (invariant_fileUpdate h _ _)
      · exact .of_ok rfl (invariant_fileUpdate h _ _)
  | fileBackingSync b =>
    simp only [exec, FrameStore.fileBackingSync]
    split_ifs
    · exact .of_ok rfl h
    · split
      · exact .of_ok rfl (invariant_fileUpdate h _ _)
      · exact .of_ok rfl (invariant_fileUpdate h _ _)
  | requestDestroy =>
    exact .of_ok rfl ⟨h.nodup, h.fresh, h.frameCount, h.frame, h.residentCount,
      h.residentSlots, h.swapSlotCount, h.swapSlots, h.nextSwapOffset, h.refault, h.reclaim,
      h.pageOut⟩

end FrameStore

end MiniMM
