import MiniMM.Frame.Step

/-!
# Runs of the frame store

The invariant holds after any sequence of locked sections on live frames, and
the content of a frame changes only by a write to it.
-/

namespace MiniMM

open Gather

namespace FrameStore

/-- The states reached from a fresh store by sections that are `allowed`, each
ending in a state with `P`. -/
inductive Reachable (allowed : ∀ {α : Type}, Op α → Prop) (P : FrameStore → Prop) :
    FrameStore → Prop where
  | create (host : Host) (file : FileId → FileBacking) (residentLimit : ℕ) :
      Reachable allowed P (create host file residentLimit)
  | step {m m' : FrameStore} {α : Type} {o : Op α} {r : α} : Reachable allowed P m →
      allowed o → o.Live m → m.exec o = .ok (r, m') → P m' → Reachable allowed P m'

/-- Any section, any state. -/
abbrev AnyReachable : FrameStore → Prop :=
  Reachable (fun _ ↦ True) fun _ ↦ True

variable {m m' : FrameStore} {f g : FrameId}

theorem create_invariant (host : Host) (file : FileId → FileBacking) (residentLimit : ℕ) :
    (create host file residentLimit).Invariant where
  nodup := List.nodup_nil
  fresh := nofun
  frameCount := rfl
  frame := nofun
  residentCount := by simp [create]
  residentSlots := by
    simp only [create, residentSlots, gather_nil, add_zero]
    rfl
  swapSlotCount := rfl
  swapSlots := rfl
  nextSwapOffset := by simp [create]
  refault := Or.inr (by simp [create, pendingCount])
  reclaim := le_rfl
  pageOut := Nat.zero_le _

theorem Reachable.invariant {allowed : ∀ {α : Type}, Op α → Prop} {P : FrameStore → Prop}
    (h : Reachable @allowed P m) : m.Invariant := by
  induction h with
  | create host file residentLimit => exact create_invariant host file residentLimit
  | step _ _ hl heq _ ih =>
    rcases exec_invariant ih _ hl with ⟨r, m', heq', hinv⟩ | ⟨a, herr, -⟩
    · rw [heq] at heq'
      cases heq'
      exact hinv
    · rw [heq] at herr
      cases herr

theorem card_gather_eq_countP {γ : Type} {sel : Frame → Option γ} {val : FrameId → Frame}
    (keys : List FrameId) :
    (gather sel val keys).card = keys.countP fun g ↦ (sel (val g)).isSome := by
  induction keys with
  | nil => rfl
  | cons k keys ih =>
    rw [gather_cons, Multiset.card_add, ih, List.countP_cons]
    cases hk : sel (val k) with
    | none => simp
    | some a => simp [add_comm]

theorem gather_eq_filterMap {γ : Type} {sel : Frame → Option γ} {val : FrameId → Frame}
    (keys : List FrameId) :
    gather sel val keys = ((keys.filterMap fun g ↦ sel (val g) : List γ) : Multiset γ) := by
  induction keys with
  | nil => rfl
  | cons k keys ih =>
    rw [gather_cons, ih]
    cases hk : sel (val k) with
    | none => simp [hk]
    | some a => simp [hk]

/-- The slot discipline of the store, in the words of its data structures. -/
structure SlotDiscipline (m : FrameStore) : Prop where
  /-- `resident_count` counts the frames with data, within the limit. -/
  residentCount : m.residentCount = m.frames.countP fun f ↦ m.resident f
  residentLimit : m.residentCount ≤ m.residentLimit
  /-- Free and used arena slots are together `0 .. resident_limit - 1`, each once. -/
  residentSlots : (m.freeResidentSlots ++ m.frames.filterMap fun f ↦ (m.frame f).residentSlot).Perm
    (List.range m.residentLimit)
  /-- Free and owned swap slots are together the slots ever made, each once. -/
  swapSlots : (m.freeSwapSlots ++ m.frames.filterMap fun f ↦ (m.frame f).swapSlot).Perm
    ((List.range m.swapSlotHighWater).map (· * pageSize))
  swapSlotCount : m.swapSlotCount = m.frames.countP fun f ↦ (m.frame f).swapSlot.isSome
  nextSwapOffset : m.nextSwapOffset = m.swapSlotHighWater * pageSize
  distinct : m.frames.Nodup
  cold : ∀ f ∈ m.frames, (m.frame f).cold = true → m.resident f
  dirty : ∀ f ∈ m.frames, (m.frame f).dirty = true → m.resident f
  transient : ∀ f ∈ m.frames, (m.frame f).transientPinCount ≠ 0 → m.resident f
  pending : ∀ f ∈ m.frames, (m.frame f).reclaimPending = true → m.resident f = false
  refault : m.reclaimCount ≠ sizeMax →
    m.refaultCount + m.frames.countP (fun f ↦ (m.frame f).reclaimPending) ≤ m.reclaimCount
  reclaim : m.reclaimCount ≤ m.pageOutCount

theorem Invariant.slotDiscipline (h : m.Invariant) : m.SlotDiscipline where
  residentCount := h.residentCount_eq_card.trans (card_gather_eq_countP _)
  residentLimit := by
    have hcount := h.residentCount
    omega
  residentSlots := by
    have hslots := h.residentSlots
    rw [FrameStore.residentSlots, gather_eq_filterMap, Multiset.coe_add] at hslots
    exact Multiset.coe_eq_coe.1 hslots
  swapSlots := by
    have hslots := h.swapSlots
    rw [FrameStore.swapSlots, gather_eq_filterMap, Multiset.coe_add] at hslots
    exact Multiset.coe_eq_coe.1 (hslots.trans rfl)
  swapSlotCount := h.swapSlotCount_eq_card.trans (card_gather_eq_countP _)
  nextSwapOffset := h.nextSwapOffset
  distinct := h.nodup
  cold := fun f hf ↦ (h.frame f hf).cold
  dirty := fun f hf ↦ (h.frame f hf).dirty
  transient := fun f hf ↦ (h.frame f hf).transient
  pending := fun f hf hp ↦ by simp [resident, (h.frame f hf).pending hp]
  refault := by
    intro hne
    have hle := h.refault.resolve_left hne
    rw [pendingCount, card_gather_eq_countP] at hle
    convert hle using 4 with f
    unfold Frame.pending
    split <;> simp_all
  reclaim := h.reclaim

/-- In every state reached by any sequence of sections the slots are in order,
no section reaches an abort of the slot functions, and a page-in finds a free
slot after an eviction, also when it resumes from a wait. -/
theorem reachable_slotDiscipline (h : AnyReachable m) :
    m.SlotDiscipline ∧
      (∀ (α : Type) (o : Op α), o.Live m →
        m.exec o ≠ .error .residentSlot ∧ m.exec o ≠ .error .swapSlotCount) ∧
      ∀ f ∈ m.frames, ∀ m', m.makeResidentLocked f ≠ .ok (.noFreeSlot, m') ∧
        m.wakeLocked.2.makeResidentLocked f ≠ .ok (.noFreeSlot, m') := by
  have hinv := h.invariant
  have hslot : ∀ m1 : FrameStore, m1.Invariant → ∀ f ∈ m1.frames, ∀ m',
      m1.makeResidentLocked f ≠ .ok (.noFreeSlot, m') := by
    intro m1 hm1 f hf m' heq
    rcases makeResidentLocked_spec hm1 hf with ⟨result, m2, heq', hin⟩ | heq'
    · rw [heq] at heq'
      cases heq'
      exact hin.slot rfl
    · rw [heq] at heq'
      cases heq'
  refine ⟨hinv.slotDiscipline, fun α o hl ↦ ?_, fun f hf m' ↦ ⟨hslot m hinv f hf m', ?_⟩⟩
  · rcases exec_invariant hinv o hl with ⟨r, m', heq, -⟩ | ⟨a, heq, hres, hswap⟩
    · rw [heq]
      exact ⟨nofun, nofun⟩
    · rw [heq]
      exact ⟨fun h ↦ hres (Except.error.inj h), fun h ↦ hswap (Except.error.inj h)⟩
  · exact hslot _ (Traffic.bookkeeping hinv m.host.wait.2 m.reclaimScanCount _).invariant f hf m'

/-- The store after a section. -/
def after {α : Type} (m : FrameStore) (o : Op α) : FrameStore :=
  match m.exec o with
  | .ok (_, m') => m'
  | .error _ => m

theorem Reachable.after {α : Type} {o : Op α} (h : AnyReachable m) (hl : o.Live m) :
    AnyReachable (m.after o) := by
  unfold FrameStore.after
  split
  · exact .step h trivial hl ‹_› trivial
  · exact h

/-- A store with two zero frames, of which so many fit into the arena. -/
def twoFrames (limit : ℕ) : FrameStore :=
  ((create Host.reliable (fun _ ↦ ⟨fun _ ↦ 0, .ok⟩) limit).after
    (.create .zero 0 0 false)).after (.create .zero 0 0 false)

/-- Both of them have been written. -/
def bothWritten (limit : ℕ) : FrameStore :=
  ((twoFrames limit).after (.request 1 (.write 0 [1]) false)).after
    (.request 2 (.write 0 [2]) false)

theorem bothWritten_reachable {limit : ℕ} (h1 : 1 ∈ (twoFrames limit).frames)
    (h2 : 2 ∈ ((twoFrames limit).after (.request 1 (.write 0 [1]) false)).frames) :
    AnyReachable (bothWritten limit) := by
  have hreach : AnyReachable (twoFrames limit) :=
    .after (.after (.create Host.reliable (fun _ ↦ ⟨fun _ ↦ 0, .ok⟩) limit) nofun) nofun
  refine .after (.after hreach ?_) ?_
  · rintro f ⟨⟩
    exact h1
  · rintro f ⟨⟩
    exact h2

/-- The second write has paged the first frame out. -/
theorem reachable_slotDiscipline_bothWritten :
    (bothWritten 1).residentCount = 1 ∧ (bothWritten 1).swapSlotCount = 1 ∧
    (bothWritten 1).SlotDiscipline ∧
    (∀ (α : Type) (o : Op α), o.Live (bothWritten 1) →
      (bothWritten 1).exec o ≠ .error .residentSlot ∧
        (bothWritten 1).exec o ≠ .error .swapSlotCount) ∧
    ∀ m', (bothWritten 1).makeResidentLocked 1 ≠ .ok (.noFreeSlot, m') := by
  have hreach : AnyReachable (bothWritten 1) :=
    bothWritten_reachable (by decide +kernel) (by decide +kernel)
  obtain ⟨hslots, haborts, hfree⟩ := reachable_slotDiscipline hreach
  refine ⟨by decide +kernel, by decide +kernel, hslots, haborts, fun m' ↦ ?_⟩
  exact (hfree 1 (by decide +kernel) m').1

/-! ## The content of the frames -/

/-- The section does not cut or extend a backing file. -/
def Op.keepsFiles {α : Type} : Op α → Prop
  | .fileBackingResize .. => False
  | _ => True

/-- The frame and the bytes a section has written, if it is a write that succeeded. -/
def Op.written : {α : Type} → Op α → α → Option (FrameId × ℕ × List UInt8)
  | _, .request f (.write offset data) _, some reply =>
    if reply.status = .ok then some (f, offset, data) else none
  | _, _, _ => none

/-- The frame, the range and the bytes of a read that succeeded. -/
def Op.returned : {α : Type} → Op α → α → Option (FrameId × ℕ × ℕ × List UInt8)
  | _, .request f (.read offset length) _, some reply =>
    if reply.status = .ok then some (f, offset, length, reply.data) else none
  | _, _, _ => none

/-- The content `g` should have after a section, by what it had before. -/
def contentAfter (m : FrameStore) (written : Option (FrameId × ℕ × List UInt8)) (g : FrameId) :
    Page :=
  match written with
  | some (f, offset, data) =>
    if g = f then ByteFile.overwrite (m.content g) offset data else m.content g
  | none => m.content g

/-- A section moved pages, changed counts or created a frame, and wrote nothing. -/
def KeepsContent (m m' : FrameStore) : Prop :=
  m'.Coherent ∧ ∀ g ∈ m.frames, g ∈ m'.frames → m'.content g = m.content g

theorem Traffic.keepsContent (h : Traffic m m') (ha : m.FilesApart) (hc : m.Coherent) :
    KeepsContent m m' :=
  ⟨(h.content ha hc).1, fun g hg _ ↦ (h.content ha hc).2 g hg⟩

theorem keepsContent_setFrame (hc : m.Coherent) {x : Frame}
    (hsource : x.source = (m.frame f).source)
    (hfile : x.fileBacking = (m.frame f).fileBacking)
    (hoffset : x.fileOffset = (m.frame f).fileOffset)
    (hres : x.residentSlot = (m.frame f).residentSlot)
    (hswap : x.swapSlot = (m.frame f).swapSlot) (hdirty : x.dirty = (m.frame f).dirty) :
    KeepsContent m (m.setFrame f x) := by
  have hback : ∀ g, (m.setFrame f x).backing g = m.backing g := by
    intro g
    by_cases hgf : g = f
    · subst hgf
      simp [backing, setFrame, hswap, hsource, hfile, hoffset]
    · simp [backing, setFrame, Function.update_of_ne hgf]
  have hcont : ∀ g, (m.setFrame f x).content g = m.content g := by
    intro g
    by_cases hgf : g = f
    · subst hgf
      simp only [content, hback]
      simp [setFrame, hres]
    · exact content_congr (Function.update_of_ne hgf _ _) (fun _ _ ↦ rfl) (hback g)
  refine ⟨fun g hg hd ↦ ?_, fun g _ _ ↦ hcont g⟩
  rw [hback, hcont]
  refine hc g hg ?_
  by_cases hgf : g = f
  · subst hgf
    simpa [setFrame, hdirty] using hd
  · simpa [setFrame, Function.update_of_ne hgf] using hd

theorem update_latchError_bytes (file : FileId → FileBacking) (b : FileId) (status : Status)
    (c : FileId) :
    (Function.update file b ((file b).latchError status) c).bytes = (file c).bytes := by
  by_cases hcb : c = b
  · subst hcb
    rw [Function.update_self, FileBacking.latchError_bytes]
  · rw [Function.update_of_ne hcb]

theorem keepsContent_files (hc : m.Coherent) {file : FileId → FileBacking} (host : Host)
    (hfile : ∀ c, (file c).bytes = (m.file c).bytes) :
    KeepsContent m { m with host := host, file := file } := by
  constructor
  · intro g hg hd
    simpa only [content, backing, hfile] using hc g hg hd
  · intro g _ _
    simp only [content, backing, hfile]

theorem keepsContent_createFrame (h : m.Invariant) (hc : m.Coherent) (source : FrameSource)
    (b : FileId) (offset : ℕ) (shared : Bool) :
    KeepsContent m (m.createFrame source b offset shared).2.2 := by
  unfold createFrame
  split
  · exact ⟨hc, fun _ _ _ ↦ rfl⟩
  · rename_i host _
    dsimp only
    split_ifs
    · exact ⟨hc, fun _ _ _ ↦ rfl⟩
    · exact ⟨hc, fun _ _ _ ↦ rfl⟩
    · have hnew : ∀ g ∈ m.frames, g ≠ m.nextFrameId := fun g hg heq ↦
        lt_irrefl _ (heq ▸ h.fresh g hg)
      refine ⟨fun g hg hd ↦ ?_, fun g hg _ ↦ ?_⟩
      · rcases List.mem_cons.1 hg with rfl | hg
        · simp [content]
        · simp only [Function.update_of_ne (hnew g hg)] at hd
          simpa [content, backing, Function.update_of_ne (hnew g hg)] using hc g hg hd
      · simp [content, backing, Function.update_of_ne (hnew g hg)]

/-- What a section does to the contents: a write changes its own frame, and a read
returns what the frame holds. -/
structure WritesOnly (m m' : FrameStore) {α : Type} (o : Op α) (r : α) : Prop where
  coherent : m'.Coherent
  content : ∀ g ∈ m.frames, g ∈ m'.frames → m'.content g = m.contentAfter (o.written r) g
  returned : ∀ f offset length data, o.returned r = some (f, offset, length, data) →
    data = ByteFile.slice (m.content f) offset length

theorem KeepsContent.writesOnly {α : Type} {o : Op α} {r : α} (h : KeepsContent m m')
    (hw : o.written r = none) (hr : o.returned r = none) : WritesOnly m m' o r where
  coherent := h.1
  content := by
    rw [hw]
    exact h.2
  returned := by
    rw [hr]
    exact nofun

theorem Answered.writesOnly {r : Request} {result : Option Reply} (ha : m.FilesApart)
    (hc : m.Coherent) (hf : f ∈ m.frames) (hans : Answered m f r m' result) (woken : Bool) :
    WritesOnly m m' (.request f r woken) result := by
  cases hans with
  | @early reply hearly =>
    cases r with
    | read offset length =>
      refine ⟨hc, fun _ _ _ ↦ rfl, ?_⟩
      simp only [Request.early] at hearly
      split_ifs at hearly with hbad hzero <;> cases hearly
      · rintro _ _ _ _ ⟨⟩
      · rintro _ _ _ _ ⟨⟩
        simp [hzero, ByteFile.slice]
    | write offset data =>
      refine ⟨hc, fun g _ _ ↦ ?_, by rintro _ _ _ _ ⟨⟩⟩
      simp only [Request.early] at hearly
      split_ifs at hearly with hbad hzero <;> cases hearly
      · rfl
      · obtain rfl := List.length_eq_zero_iff.1 hzero
        simp [Op.written, contentAfter]
    | ensureResident => cases hearly
  | @served m1 _ reply _ htraffic _ hs =>
    obtain ⟨hc1, hcont1⟩ := htraffic.content ha hc
    have hframes : ∀ g ∈ m.frames, g ∈ m1.frames := fun g hg ↦ by rwa [htraffic.frames]
    have hself := hs.self
    rw [hcont1 f hf] at hself
    have hothers : ∀ g ∈ m.frames, g ≠ f → m'.content g = m.content g := fun g hg hgf ↦
      (hs.others g (hframes g hg) hgf).trans (hcont1 g hg)
    refine ⟨hs.coherent hc1, fun g hg _ ↦ ?_, ?_⟩
    · by_cases hgf : g = f
      · subst hgf
        rw [hself]
        cases r <;> simp [Op.written, contentAfter, hs.ok]
      · rw [hothers g hg hgf]
        cases r <;> simp [Op.written, contentAfter, hs.ok, hgf]
    · cases r with
      | read offset length =>
        simp only [Op.returned, hs.ok, if_true]
        rintro _ _ _ _ ⟨⟩
        rw [hs.data offset length rfl, hcont1 f hf]
      | write offset data => rintro _ _ _ _ ⟨⟩
      | ensureResident => rintro _ _ _ _ ⟨⟩
  | failed ht hne =>
    refine (ht.keepsContent ha hc).writesOnly ?_ ?_
    · cases r <;> simp [Op.written, hne]
    · cases r <;> simp [Op.returned, hne]
  | waiting ht _ =>
    refine (ht.keepsContent ha hc).writesOnly ?_ ?_
    · cases r <;> simp [Op.written]
    · cases r <;> simp [Op.returned]

theorem Answered.frames {r : Request} {result : Option Reply}
    (ha : Answered m f r m' result) : m'.frames = m.frames := by
  cases ha with
  | early _ => rfl
  | served _ ht _ hs => rw [hs.frames, ht.frames]
  | failed ht _ => exact ht.frames
  | waiting ht _ => exact ht.frames

theorem written_live {α : Type} {o : Op α} {r : α} {offset : ℕ} {data : List UInt8}
    (h : m.Invariant) (hl : o.Live m) (heq : m.exec o = .ok (r, m'))
    (hw : o.written r = some (f, offset, data)) : f ∈ m.frames ∧ f ∈ m'.frames := by
  cases o with
  | request g req woken =>
    have hgf : g = f := by
      cases req <;> cases r <;> simp only [Op.written, reduceCtorEq] at hw
      split_ifs at hw
      cases hw
      rfl
    subst hgf
    have hg := hl g rfl
    rcases request_spec h hg req woken with ⟨result, m1, heq', hans⟩ | heq'
    · cases heq.symm.trans heq'
      exact ⟨hg, hans.frames ▸ hg⟩
    · cases heq.symm.trans heq'
  | _ => cases hw

theorem exec_writesOnly {α : Type} {o : Op α} {r : α} (h : m.Invariant) (ha : m.FilesApart)
    (hc : m.Coherent) (hk : o.keepsFiles) (hl : o.Live m) (heq : m.exec o = .ok (r, m')) :
    WritesOnly m m' o r := by
  cases o with
  | create source b offset shared =>
    cases heq
    exact (keepsContent_createFrame h hc source b offset shared).writesOnly rfl rfl
  | request f r' woken =>
    rcases request_spec h (hl f rfl) r' woken with ⟨result, m1, heq', hans⟩ | heq'
    · cases heq.symm.trans heq'
      exact hans.writesOnly ha hc (hl f rfl) woken
    · cases heq.symm.trans heq'
  | pageOut f =>
    obtain ⟨status, m1, heq', hev, -⟩ := pageOutLocked_spec h (hl f rfl)
    cases heq.symm.trans heq'
    exact (hev.traffic.keepsContent ha hc).writesOnly rfl rfl
  | reclaim target =>
    obtain ⟨r', m1, heq', ht⟩ := reclaim_spec h target
    cases heq.symm.trans heq'
    exact (ht.keepsContent ha hc).writesOnly rfl rfl
  | release f =>
    obtain ⟨m1, heq', hrel⟩ := releaseLocked_spec h (hl f rfl)
    rw [exec, heq'] at heq
    cases heq
    refine KeepsContent.writesOnly ⟨(hrel.content ha hc).1, fun g hg hg' ↦ ?_⟩ rfl rfl
    have hgf : g ≠ f := fun hgf ↦ by
      rw [hrel.frames, hgf] at hg'
      exact h.nodup.not_mem_erase hg'
    exact (hrel.content ha hc).2 g hg hgf
  | map f =>
    simp only [exec, FrameStore.map] at heq
    split_ifs at heq
    · cases heq
    · cases heq
      refine KeepsContent.writesOnly ?_ rfl rfl
      exact keepsContent_setFrame hc rfl rfl rfl rfl rfl rfl
  | unmap f =>
    simp only [exec, FrameStore.unmap] at heq
    split_ifs at heq
    · cases heq
    · cases heq
      refine KeepsContent.writesOnly ?_ rfl rfl
      exact keepsContent_setFrame hc rfl rfl rfl rfl rfl rfl
  | pin site f =>
    simp only [exec, FrameStore.pin] at heq
    split_ifs at heq
    · cases heq
    · cases heq
      refine KeepsContent.writesOnly ?_ rfl rfl
      exact keepsContent_setFrame hc rfl rfl rfl rfl rfl rfl
  | unpin f =>
    simp only [exec, FrameStore.unpin] at heq
    split_ifs at heq <;> cases heq
    · refine KeepsContent.writesOnly ?_ rfl rfl
      exact keepsContent_setFrame hc rfl rfl rfl rfl rfl rfl
    · exact KeepsContent.writesOnly ⟨hc, fun _ _ _ ↦ rfl⟩ rfl rfl
  | tryPinResident f =>
    simp only [exec, FrameStore.tryPinResident] at heq
    split_ifs at heq <;> cases heq
    · exact KeepsContent.writesOnly ⟨hc, fun _ _ _ ↦ rfl⟩ rfl rfl
    · refine KeepsContent.writesOnly ?_ rfl rfl
      exact keepsContent_setFrame hc rfl rfl rfl rfl rfl rfl
  | unpinResident f =>
    simp only [exec, FrameStore.unpinResident] at heq
    split_ifs at heq
    · cases heq
    · cases heq
      refine KeepsContent.writesOnly ?_ rfl rfl
      exact keepsContent_setFrame hc rfl rfl rfl rfl rfl rfl
  | sync f =>
    simp only [exec, FrameStore.sync] at heq
    split_ifs at heq
    · have hwb := writeBackLocked_spec h (hl f rfl)
      rw [Except.ok.inj heq] at hwb
      exact (hwb.traffic.keepsContent ha hc).writesOnly rfl rfl
    · cases heq
      exact KeepsContent.writesOnly ⟨hc, fun _ _ _ ↦ rfl⟩ rfl rfl
  | markCold f =>
    simp only [exec, FrameStore.markCold] at heq
    split_ifs at heq <;> cases heq
    · refine KeepsContent.writesOnly ?_ rfl rfl
      exact keepsContent_setFrame hc rfl rfl rfl rfl rfl rfl
    · exact KeepsContent.writesOnly ⟨hc, fun _ _ _ ↦ rfl⟩ rfl rfl
  | isResident f => cases heq; exact KeepsContent.writesOnly ⟨hc, fun _ _ _ ↦ rfl⟩ rfl rfl
  | getState f => cases heq; exact KeepsContent.writesOnly ⟨hc, fun _ _ _ ↦ rfl⟩ rfl rfl
  | fileBackingResize b size => exact absurd hk id
  | fileBackingSync b =>
    simp only [exec, FrameStore.fileBackingSync] at heq
    split_ifs at heq
    · cases heq
      exact KeepsContent.writesOnly ⟨hc, fun _ _ _ ↦ rfl⟩ rfl rfl
    · split at heq
      · cases heq
        exact KeepsContent.writesOnly ⟨hc, fun _ _ _ ↦ rfl⟩ rfl rfl
      · cases heq
        exact (keepsContent_files hc _ (update_latchError_bytes _ b _)).writesOnly rfl rfl
  | requestDestroy => cases heq; exact KeepsContent.writesOnly ⟨hc, fun _ _ _ ↦ rfl⟩ rfl rfl

/-- The runs in which no backing file is resized and no two live file frames name
the same page of one file. -/
abbrev ApartReachable : FrameStore → Prop :=
  Reachable Op.keepsFiles FilesApart

theorem ApartReachable.filesApart (h : ApartReachable m) : m.FilesApart := by
  cases h with
  | create => exact nofun
  | step _ _ _ _ ha => exact ha

theorem ApartReachable.coherent (h : ApartReachable m) : m.Coherent := by
  induction h with
  | create => exact nofun
  | step hreach hk hl heq _ ih =>
    exact (exec_writesOnly hreach.invariant (ApartReachable.filesApart hreach) ih hk hl
      heq).coherent

/-- In every run, the content of a frame that stays live changes by a successful
write to that frame only, and there in the written range only; a successful read
returns the content. -/
theorem reachable_content {α : Type} {o : Op α} {r : α} (h : ApartReachable m)
    (hk : o.keepsFiles) (hl : o.Live m) (heq : m.exec o = .ok (r, m')) :
    (∀ g ∈ m.frames, g ∈ m'.frames → m'.content g ≠ m.content g →
      ∃ offset data, o.written r = some (g, offset, data) ∧
        ∀ i : Fin pageSize, m'.content g i =
          if offset ≤ i ∧ (i : ℕ) < offset + data.length then data.getD (i - offset) 0
          else m.content g i) ∧
    (∀ f offset data, o.written r = some (f, offset, data) →
      m'.content f = ByteFile.overwrite (m.content f) offset data) ∧
    ∀ f offset length data, o.returned r = some (f, offset, length, data) →
      data = ByteFile.slice (m.content f) offset length := by
  have hw := exec_writesOnly h.invariant h.filesApart h.coherent hk hl heq
  refine ⟨fun g hg hg' hne ↦ ?_, fun f offset data hwritten ↦ ?_, hw.returned⟩
  · have hcont := hw.content g hg hg'
    unfold contentAfter at hcont
    split at hcont
    · rename_i f offset data hwritten
      split_ifs at hcont with hgf
      · subst hgf
        exact ⟨offset, data, hwritten, fun i ↦ by rw [hcont]; rfl⟩
      · exact absurd hcont hne
    · exact absurd hcont hne
  · obtain ⟨hf, hf'⟩ := written_live h.invariant hl heq hwritten
    rw [hw.content f hf hf', hwritten]
    simp [contentAfter]

/-- A store with one zero frame. -/
def oneFrame : FrameStore :=
  ((create Host.reliable (fun _ ↦ ⟨fun _ ↦ 0, .ok⟩) 1).createFrame .zero 0 0 false).2.2

theorem oneFrame_apartReachable : ApartReachable oneFrame := by
  refine .step (o := .create .zero 0 0 false)
    (.create Host.reliable (fun _ ↦ ⟨fun _ ↦ 0, .ok⟩) 1) trivial nofun rfl ?_
  intro f hf g hg hne
  exact absurd ((List.mem_singleton.1 hf).trans (List.mem_singleton.1 hg).symm) hne

theorem reachable_content_oneFrame :
    ∃ m', oneFrame.exec (.request 1 (.write 0 [7]) false) = .ok (some { status := .ok }, m') ∧
      m'.content 1 = ByteFile.overwrite (oneFrame.content 1) 0 [7] :=
  ⟨_, rfl, (reachable_content (o := .request 1 (.write 0 [7]) false) oneFrame_apartReachable
    trivial (by rintro _ ⟨⟩; exact List.mem_singleton_self 1) rfl).2.1 1 0 [7] rfl⟩

end FrameStore

end MiniMM
