import MiniMM.Binding.Calls
import MiniMM.Frame.Latch

/-!
# The statuses of faults and synchronisation

A fault or a synchronisation looks up the binding of a mapping and checks the offset of a page.
Where these succeed, `NOT_FOUND` and `INVALID_ARGUMENT` can only be errors that a file has latched.
-/

namespace MiniMM

open Vma Code

namespace Sys

variable {s s' σ : Sys}

/-- A file has latched the error. -/
def Latched (s : Sys) (status : Status) : Prop := ∃ b, (s.store.file b).writebackError = status

/-- If the status is one that lookups and checks of arguments give, it is the error of a file. -/
def FromFile (s : Sys) (status : Status) : Prop :=
  status = .notFound ∨ status = .invalidArgument → s.Latched status

/-- The answers of steps in a system that agrees with `σ` on backings and notes, where the store
reports statuses of `L`. -/
def Op.reports (σ : Sys) (L : Status → Prop) {α : Type} : Op α → α → Prop
  | .create .., r => L r.1
  | .request _ r _, reply => r.Inside → L reply.status ∧
      ∀ offset length, r = .read offset length → reply.data.length ≤ length
  | .store (.sync _), status => L status
  | .store (.fileBackingSync _), status => L status
  | .backingInfo b, info => info = σ.backingInfo b
  | .noteSize n, size => size = σ.noteSize n
  | _, _ => True

theorem SpaceOk.find_of_mem {c : Space} {v : Vma} (h : s.SpaceOk c)
    (hv : v ∈ c.vmaSnapshot.ranges) :
    ∃ β, Binding.find v.mappingCookie c.bindings = some β ∧ s.Backs β.backing (v.view v.start) := by
  have hcontains := contains_iff.2 ⟨le_rfl, (h.good.ordered.valid v hv).lt⟩
  obtain ⟨β, hβ, hcookie, hbacks⟩ :=
    h.bound _ _ (h.good.ordered.viewAt_iff.2 ⟨v, hv, hcontains, rfl⟩)
  refine ⟨β, ?_, hbacks⟩
  rw [show v.mappingCookie = β.cookie from hcookie.symm]
  exact Binding.find_eq h.nodup hβ

theorem exec_latches {α : Type} {o : Op α} {a : α} (ho : o.quiet) (h : s.exec o = .ok a s') :
    s.store.Latches s'.store := by
  cases o with
  | create source b offset shared =>
    simp only [exec] at h
    split at h
    · cases h
    · next heq =>
      cases h
      exact FrameStore.exec_latches heq
  | request f r woken =>
    simp only [exec] at h
    split at h
    · cases h
    · cases h
    · next heq =>
      cases h
      exact FrameStore.exec_latches heq
  | store o =>
    simp only [exec] at h
    split at h
    · cases h
    · next heq =>
      cases h
      exact FrameStore.exec_latches heq
  | newFile => cases ho
  | abort | stuck => cases h
  | retain | retainNote | retainBacking =>
    simp only [exec, countUp] at h
    split at h <;> cases h
    exact .refl _
  | lockSpace | lockBrk | lockBacking | lockLineage =>
    simp only [exec, lock] at h
    split at h <;> cases h
    exact .refl _
  | newNote =>
    simp only [exec] at h
    split at h <;> cases h <;> exact .refl _
  | _ =>
    cases h
    exact .of_file rfl

theorem exec_answers {α : Type} {o : Op α} {a : α} {L : Status → Prop} (hsame : σ.Same s)
    (hL : ∀ status, s'.store.Tells status ∨ status = .busy → L status)
    (h : s.exec o = .ok a s') : o.reports σ L a := by
  cases o with
  | create source b offset shared =>
    cases h
    exact hL _ (FrameStore.createFrame_latches s.store source b offset shared).2
  | request f r woken =>
    simp only [exec] at h
    split at h
    · cases h
    · cases h
    · next heq =>
      cases h
      intro hinside
      obtain ⟨htells, hdata⟩ := (FrameStore.request_latches heq).2 hinside _ rfl
      exact ⟨hL _ htells, hdata⟩
  | store o =>
    cases o with
    | sync f =>
      cases h
      exact hL _ (.inl (FrameStore.sync_latches s.store f).2)
    | fileBackingSync b =>
      cases h
      exact hL _ (.inl (FrameStore.fileBackingSync_latches s.store b).2)
    | _ => trivial
  | backingInfo b =>
    cases h
    exact congrFun hsame.backingInfo b
  | noteSize n =>
    cases h
    exact congrFun hsame.noteSize n
  | _ => trivial

end Sys

namespace Code

variable {α β : Type} {σ s s' : Sys} {L : Status → Prop} {p : Code α} {f : α → Code β}
  {Q : α → Prop} {R : β → Prop}

theorem Silent.latches (hp : Silent p) {a : α} (hrun : p.run s = .done a s') :
    s.store.Latches s'.store := by
  induction p generalizing s with
  | pure b =>
    cases hrun
    exact .refl _
  | op o k ih =>
    obtain ⟨b, s1, hexec, hrest⟩ := Prog.run_op_done _ hrun
    exact (Sys.exec_latches hp.1 hexec).trans (ih b (hp.2 b trivial) hrest)

/-- What the code returns satisfies `Q` if its steps answer in this way. -/
abbrev Answers (σ : Sys) (L : Status → Prop) (p : Code α) (Q : α → Prop) : Prop :=
  Prog.Yields Sys.Op.quiet (Sys.Op.reports σ L) p Q

theorem Answers.run (h : Answers σ s'.FromFile p Q) (hp : Silent p) (hsame : σ.Same s) {a : α}
    (hrun : p.run s = .done a s') : Q a := by
  induction p generalizing s with
  | pure b =>
    cases hrun
    exact h
  | op o k ih =>
    obtain ⟨b, s1, hexec, hrest⟩ := Prog.run_op_done _ hrun
    have hlatches := Silent.latches (hp.2 b trivial) hrest
    refine ih b (h.2 b (Sys.exec_answers hsame ?_ hexec)) (hp.2 b trivial)
      (hsame.trans (Sys.exec_same hp.1 hexec)) hrest
    rintro status ((hown | ⟨c, hc⟩) | rfl) hbad
    · rcases hbad with rfl | rfl <;> cases hown
    · refine ⟨c, (hlatches.keeps ?_).trans hc⟩
      rw [hc]
      rcases hbad with rfl | rfl <;> exact Status.noConfusion
    · rcases hbad with hbad | hbad <;> cases hbad

theorem Silent.answers (hp : Silent p) (hf : ∀ a, Answers σ L (f a) R) :
    Answers σ L (p >>= f) R :=
  Prog.Yields.bind (Prog.Yields.weaken hp (fun ho ↦ ho) fun _ ↦ trivial) fun a _ ↦ hf a

theorem answers_step {o : Sys.Op α} (ho : o.quiet)
    (hf : ∀ a, o.reports σ L a → Answers σ L (f a) R) : Answers σ L (.step o >>= f) R :=
  ⟨ho, hf⟩

theorem answers_ite {q : Code α} {c : Prop} [Decidable c] (hp : c → Answers σ L p Q)
    (hq : ¬c → Answers σ L q Q) : Answers σ L (if c then p else q) Q := by
  split
  · exact hp ‹_›
  · exact hq ‹_›

end Code

/-! ## Mapped pages -/

namespace Space

variable {σ : Sys} {c : Space} {v : Vma} {β : Binding} {a page stop : ℕ}

theorem page_inside (h : σ.SpaceOk c) (hv : v ∈ c.vmaSnapshot.ranges)
    (ha : v.contains a = true) :
    v.start ≤ pageOf a ∧ pageOf a + pageSize ≤ v.stop ∧ pageOf a % pageSize = 0 ∧
      backingOffset v (pageOf a) % pageSize = 0 := by
  have hvalid := h.good.ordered.valid v hv
  have hstart := hvalid.startAligned
  have hstop := hvalid.stopAligned
  have hoffset := hvalid.offsetAligned
  rw [contains_iff] at ha
  simp only [pageOf, backingOffset, pageSize] at hstart hstop hoffset ⊢
  omega

theorem offset_inside (h : σ.SpaceOk c) (hv : v ∈ c.vmaSnapshot.ranges)
    (hβ : Binding.find v.mappingCookie c.bindings = some β) (hpage : v.start ≤ page)
    (hlt : page < stop) (hstop : stop ≤ v.stop) {n : NoteId}
    (hn : (σ.backingInfo β.backing).note = some n) :
    backingOffset v page + (stop - page) ≤ σ.noteSize n := by
  have hreach := h.reaches hv hβ hn
  simp only [backingOffset]
  omega

theorem updateIsValid_access (haddress : pageAddressIsValid a = true) (access : Access)
    (cow : Bool) : PageTable.updateIsValid a (accessFlags access) { cow := cow } = true := by
  rw [PageTable.updateIsValid, haddress]
  cases access <;> cases cow <;> rfl

end Space

/-- Neither a lookup nor a check of an argument gives this status. -/
def Status.passes : Status → Bool
  | .notFound | .invalidArgument => false
  | _ => true

section Chain

variable {σ : Sys} {L : Status → Prop} (hL : ∀ status, status.passes = true → L status)

/-! ## Frames and entries -/

theorem answers_frameEnsureResident (f : FrameId) :
    Answers σ L (frameEnsureResident f) fun r ↦ L r.1 :=
  ⟨trivial, fun _ h ↦ (h trivial).1⟩

theorem answers_frameCreate (source : FrameSource) (b : FileId) (offset : ℕ) (shared : Bool) :
    Answers σ L (Code.create source b offset shared) fun r ↦ L r.1 :=
  ⟨trivial, fun _ h ↦ h⟩

theorem answers_frameRead (f : FrameId) :
    Answers σ L (frameRead f 0 pageSize) fun r ↦ L r.1 ∧ r.2.length ≤ pageSize :=
  ⟨trivial, fun _ h ↦ ⟨(h (Nat.zero_add _).le).1, (h (Nat.zero_add _).le).2 _ _ rfl⟩⟩

theorem answers_frameWrite (f : FrameId) {data : List UInt8} (hdata : data.length ≤ pageSize) :
    Answers σ L (frameWrite f 0 data) L :=
  ⟨trivial, fun _ h ↦ (h ((Nat.zero_add _).le.trans hdata)).1⟩

include hL

theorem answers_frameCopyInto {make : Code (Status × FrameId)} (source : FrameId)
    (hmake : Answers σ L make fun r ↦ L r.1) :
    Answers σ L (frameCopyInto source make) fun r ↦ L r.1 := by
  refine (answers_frameRead source).bind fun r hr ↦ answers_ite (fun _ ↦ hr.1) fun _ ↦ ?_
  refine hmake.bind fun q hq ↦ answers_ite (fun _ ↦ hq) fun _ ↦ ?_
  refine (answers_frameWrite q.2 hr.2).bind fun status hstatus ↦ ?_
  refine answers_ite (fun _ ↦ silent_frameRelease.answers fun _ ↦ hstatus) fun _ ↦ ?_
  exact hL _ rfl

namespace PageTable

variable {t : PageTable} {address : ℕ}

theorem answers_map (haddress : pageAddressIsValid address = true) (f : FrameId)
    (protection : Prot) (flags : PteFlags) :
    Answers σ L (t.map address f protection flags) fun r ↦ L r.1 := by
  have hgrow : Silent (Radix.grow malloc 3 t.root (address / pageSize)) :=
    (Radix.yields_grow silent_malloc 3 t.root _).mono fun _ _ ↦ trivial
  refine answers_ite (fun h ↦ absurd (haddress.symm.trans h) (by decide)) fun _ ↦ ?_
  refine answers_ite (fun _ ↦ hL _ rfl) fun _ ↦ hgrow.answers fun _ ↦ ?_
  refine answers_ite (fun _ ↦ hL _ rfl) fun _ ↦ silent_malloc.answers fun _ ↦ ?_
  refine answers_ite (fun _ ↦ hL _ rfl) fun _ ↦ silent_frameRetain.answers fun _ ↦ ?_
  refine (silent_when silent_store).answers fun _ ↦ silent_store.answers fun _ ↦ ?_
  exact hL _ rfl

theorem answers_commitAttributes (pte : Pte) (protection : Prot) (set clear : PteFlags) :
    Answers σ L (t.commitAttributes address pte protection set clear) fun r ↦ L r.1 := by
  refine answers_ite (fun _ ↦ hL _ rfl) fun _ ↦ ?_
  refine (silent_when silent_store).answers fun _ ↦ (silent_when silent_store).answers fun _ ↦ ?_
  exact hL _ rfl

theorem answers_updateFlags {set clear : PteFlags} (hvalid : updateIsValid address set clear = true)
    {pte : Pte} (hpte : t.lookup address = some pte) :
    Answers σ L (t.updateFlags address set clear) fun r ↦ L r.1 := by
  refine answers_ite (fun h ↦ absurd (hvalid.symm.trans h) (by decide)) fun _ ↦ ?_
  rw [hpte]
  exact answers_commitAttributes hL pte pte.protection set clear

theorem answers_replaceFrame {set clear : PteFlags}
    (hvalid : updateIsValid address set clear = true) {pte : Pte}
    (hpte : t.lookup address = some pte) (f : FrameId) (protection : Prot) :
    Answers σ L (t.replaceFrame address f protection set clear) fun r ↦ L r.1 := by
  refine answers_ite (fun h ↦ absurd (hvalid.symm.trans h) (by decide)) fun _ ↦ ?_
  rw [hpte]
  refine silent_frameRetain.answers fun _ ↦ (silent_when silent_store).answers fun _ ↦ ?_
  refine (silent_when silent_store).answers fun _ ↦ (silent_when silent_store).answers fun _ ↦ ?_
  refine (silent_when silent_store).answers fun _ ↦ silent_frameReleaseAt.answers fun _ ↦ ?_
  exact hL _ rfl

end PageTable

/-! ## Pages of notes and backings -/

namespace Note

theorem answers_cacheFrame {make : Code (Status × FrameId)} (v : Lineage) (n : NoteId)
    (offset : ℕ) (hmake : Answers σ L make fun r ↦ L r.1) :
    Answers σ L (cacheFrame v n offset make) fun r ↦ L r.1 := by
  unfold cacheFrame
  split
  · exact hL _ rfl
  · refine silent_malloc.answers fun _ ↦ answers_ite (fun _ ↦ hL _ rfl) fun _ ↦ ?_
    exact hmake.bind fun r hr ↦ answers_ite (fun _ ↦ hr) fun _ ↦ hL _ rfl

theorem answers_cacheBackingPageLocked (v : Lineage) (n : NoteId) (offset : ℕ) :
    Answers σ L (cacheBackingPageLocked v n offset) fun r ↦ L r.1 := by
  refine answers_cacheFrame hL v n offset (silent_info.answers fun _ ↦ ?_)
  refine (answers_frameCreate _ _ _ _).bind fun r hr ↦ answers_ite (fun _ ↦ hr) fun _ ↦ ?_
  refine (answers_frameEnsureResident _).bind fun q hq ↦ answers_ite (fun _ ↦ ?_) fun _ ↦ ?_
  · exact silent_frameRelease.answers fun _ ↦ hq
  · exact hL _ rfl

theorem answers_cacheCopyLocked (v : Lineage) (n : NoteId) (offset : ℕ) (source : FrameId) :
    Answers σ L (cacheCopyLocked v n offset source) fun r ↦ L r.1 := by
  refine answers_cacheFrame hL v n offset (silent_info.answers fun _ ↦ ?_)
  exact answers_frameCopyInto hL source (answers_frameCreate _ _ _ _)

theorem answers_readFrameFrom (offset fuel : ℕ) (v : Lineage) (owner : NoteId) :
    Answers σ L (readFrameFrom offset fuel v owner) fun r ↦ L r.1 := by
  have hown : ∀ owner, Answers σ L (readFrameFrom.readOwn offset v owner) fun r ↦ L r.1 := by
    intro owner
    refine silent_loadSize.answers fun _ ↦ answers_ite (fun _ ↦ hL _ rfl) fun _ ↦ ?_
    exact answers_cacheBackingPageLocked hL v owner offset
  induction fuel generalizing owner with
  | zero => exact hL _ rfl
  | succ fuel ih =>
    rw [readFrameFrom]
    split
    · exact hL _ rfl
    split
    · exact answers_ite (fun _ ↦ ih _) fun _ ↦ hown _
    · exact hown _

variable {n : NoteId} {offset : ℕ}

theorem answers_getReadFrameLocked (haligned : offset % pageSize = 0)
    (hsize : offset + pageSize ≤ σ.noteSize n) (v : Lineage) :
    Answers σ L (getReadFrameLocked v n offset) fun r ↦ L r.1 := by
  refine answers_step trivial fun size hsized ↦ ?_
  cases hsized
  refine answers_ite (fun hbad ↦ ?_) fun _ ↦ ?_
  · simp only [pageSize] at haligned hsize hbad
    omega
  · refine (answers_readFrameFrom hL offset _ v n).bind fun r hr ↦ ?_
    refine answers_ite (fun _ ↦ hr) fun _ ↦ silent_frameRetain.answers fun _ ↦ ?_
    exact hL _ rfl

theorem answers_preserveChildrenLocked (offset : ℕ) (snapshot : FrameId) (children : List NoteId)
    (v : Lineage) :
    Answers σ L (preserveChildrenLocked offset snapshot children v) fun r ↦ L r.1 := by
  induction children generalizing v with
  | nil => exact hL _ rfl
  | cons child rest ih =>
    refine answers_ite (fun _ ↦ ?_) fun _ ↦ ih v
    refine (answers_cacheCopyLocked hL v child offset snapshot).bind fun r hr ↦ ?_
    exact answers_ite (fun _ ↦ hr) fun _ ↦ ih r.2.1

theorem answers_getFrame (haligned : offset % pageSize = 0)
    (hsize : offset + pageSize ≤ σ.noteSize n) :
    Answers σ L (getFrame n offset) fun r ↦ L r.1 := by
  have hlocked : ∀ v, Answers σ L (getPrivateFrameLocked v n offset) fun r ↦ L r.1 := by
    intro v
    refine (answers_getReadFrameLocked hL haligned hsize v).bind fun r hr ↦ ?_
    refine answers_ite (fun _ ↦ hr) fun _ ↦ ?_
    refine (answers_preserveChildrenLocked hL offset _ _ _).bind fun q hq ↦ ?_
    refine answers_ite (fun _ ↦ silent_frameRelease.answers fun _ ↦ hq) fun _ ↦ ?_
    refine (answers_cacheCopyLocked hL _ n offset _).bind fun x hx ↦ ?_
    refine (silent_when silent_frameRetain).answers fun _ ↦ ?_
    exact silent_frameRelease.answers fun _ ↦ hx
  refine silent_info.answers fun i ↦ answers_step trivial fun v _ ↦ ?_
  exact (hlocked v).bind fun r hr ↦ answers_step trivial fun _ _ ↦ hr

theorem answers_syncPagesLocked (offset length : ℕ) (pages : CachedPages) :
    Answers σ L (syncPagesLocked offset length pages) L := by
  induction pages with
  | nil => exact hL _ rfl
  | cons page rest ih =>
    obtain ⟨o, f⟩ := page
    refine answers_ite (fun _ ↦ hL _ rfl) fun _ ↦ answers_ite (fun _ ↦ ?_) fun _ ↦ ih
    exact answers_step trivial fun _ h ↦ answers_ite (fun _ ↦ h) fun _ ↦ ih

theorem answers_syncRange {length : ℕ} (hlength : 0 < length) (haligned : offset % pageSize = 0)
    (hlengthAligned : length % pageSize = 0) (hsize : offset + length ≤ σ.noteSize n) :
    Answers σ L (syncRange n offset length) L := by
  refine answers_ite (fun hbad ↦ ?_) fun _ ↦ ?_
  · omega
  refine silent_info.answers fun i ↦ answers_step trivial fun v _ ↦ ?_
  refine answers_step trivial fun size hsized ↦ ?_
  cases hsized
  refine answers_ite (fun hbad ↦ ?_) fun _ ↦ ?_
  · omega
  refine (answers_syncPagesLocked hL offset length _).bind fun status hstatus ↦ ?_
  refine answers_ite (fun _ ↦ answers_step trivial fun _ _ ↦ hstatus) fun _ ↦ ?_
  exact answers_step trivial fun _ hstatus ↦ answers_step trivial fun _ _ ↦ hstatus

end Note

theorem Backing.answers_getFrame {b : BackingId} {offset : ℕ} (haligned : offset % pageSize = 0)
    (hsize : ∀ n, (σ.backingInfo b).note = some n → offset + pageSize ≤ σ.noteSize n) :
    Answers σ L (getFrame b offset) fun r ↦ L r.1 := by
  refine answers_ite (fun hbad ↦ absurd haligned hbad) fun _ ↦ ?_
  refine answers_step trivial fun info hinfo ↦ ?_
  cases hinfo
  split
  · next n hn =>
    exact (Note.answers_getFrame hL haligned (hsize n hn)).bind fun r hr ↦ hr
  · refine answers_ite (fun _ ↦ (answers_frameCreate _ _ _ _).bind fun r hr ↦ hr) fun _ ↦ ?_
    refine answers_step trivial fun pages _ ↦ ?_
    split
    · refine silent_frameRetain.answers fun _ ↦ answers_step trivial fun _ _ ↦ ?_
      exact hL _ rfl
    · have hnew : Answers σ L newSharedPage fun r ↦ L r.1 := by
        refine silent_malloc.answers fun _ ↦ answers_ite (fun _ ↦ hL _ rfl) fun _ ↦ ?_
        refine (answers_frameCreate _ _ _ _).bind fun r hr ↦ answers_ite (fun _ ↦ hr) fun _ ↦ ?_
        refine (answers_frameEnsureResident _).bind fun q hq ↦ answers_ite (fun _ ↦ ?_) fun _ ↦ ?_
        · exact silent_frameRelease.answers fun _ ↦ hq
        · exact hL _ rfl
      refine hnew.bind fun r hr ↦ answers_ite (fun _ ↦ ?_) fun _ ↦ ?_
      · exact answers_step trivial fun _ _ ↦ hr
      · refine silent_frameRetain.answers fun _ ↦ answers_step trivial fun _ _ ↦ ?_
        exact hL _ rfl

/-! ## Faults -/

namespace Space

variable {c : Space} {v : Vma} {b : BackingId} {β : Binding} {a offset page stop : ℕ}

theorem answers_residentFrame (haligned : offset % pageSize = 0)
    (hsize : ∀ n, (σ.backingInfo b).note = some n → offset + pageSize ≤ σ.noteSize n) :
    Answers σ L (residentFrame b offset) fun r ↦ L r.1 := by
  refine (Backing.answers_getFrame hL haligned hsize).bind fun r hr ↦ ?_
  refine answers_ite (fun _ ↦ hr) fun _ ↦ (answers_frameEnsureResident _).bind fun q hq ↦ ?_
  refine answers_ite (fun _ ↦ silent_frameRelease.answers fun _ ↦ hq) fun _ ↦ ?_
  exact hL _ rfl

theorem answers_faultFrame (haligned : offset % pageSize = 0)
    (hsize : ∀ n, (σ.backingInfo b).note = some n → offset + pageSize ≤ σ.noteSize n)
    (kind : BackingKind) (write : Bool) :
    Answers σ L (faultFrame b kind offset write) fun r ↦ L r.1 := by
  refine answers_ite (fun _ ↦ ?_) fun _ ↦ answers_residentFrame hL haligned hsize
  refine (Backing.answers_getFrame hL haligned hsize).bind fun r hr ↦ ?_
  refine answers_ite (fun _ ↦ hr) fun _ ↦ ?_
  refine (answers_frameCopyInto hL _ (answers_frameCreate _ _ _ _)).bind fun q hq ↦ ?_
  exact silent_frameRelease.answers fun _ ↦ hq

theorem answers_faultMapped {fault : FaultInfo}
    (haddress : pageAddressIsValid fault.pageAddress = true)
    (haligned : backingOffset v fault.pageAddress % pageSize = 0)
    (hsize : ∀ n, (σ.backingInfo b).note = some n →
      backingOffset v fault.pageAddress + pageSize ≤ σ.noteSize n) :
    Answers σ L (faultMapped c v b fault) fun r ↦ L r.1 := by
  refine Backing.silent_info.answers fun info ↦ ?_
  split
  · refine (answers_faultFrame hL haligned hsize _ _).bind fun r hr ↦ ?_
    refine answers_ite (fun _ ↦ hr) fun _ ↦ ?_
    refine (PageTable.answers_map hL haddress _ _ _).bind fun q hq ↦ ?_
    refine silent_frameRelease.answers fun _ ↦ answers_ite (fun _ ↦ hq) fun _ ↦ ?_
    exact hL _ rfl
  · next pte hpte =>
    refine answers_ite (fun _ ↦ ?_) fun _ ↦ answers_ite (fun _ ↦ hL _ rfl) fun _ ↦ ?_
    · refine (answers_frameCopyInto hL _ (answers_frameCreate _ _ _ _)).bind fun r hr ↦ ?_
      refine answers_ite (fun _ ↦ hr) fun _ ↦ ?_
      refine (PageTable.answers_replaceFrame hL (updateIsValid_access haddress _ true) hpte _
        _).bind fun q hq ↦ ?_
      refine silent_frameRelease.answers fun _ ↦ answers_ite (fun _ ↦ hq) fun _ ↦ ?_
      exact hL _ rfl
    · refine (answers_frameEnsureResident _).bind fun r hr ↦ answers_ite (fun _ ↦ hr) fun _ ↦ ?_
      refine (PageTable.answers_updateFlags hL (updateIsValid_access haddress _ false)
        hpte).bind fun q hq ↦ ?_
      refine answers_ite (fun _ ↦ hq) fun _ ↦ answers_ite (fun _ ↦ ?_) fun _ ↦ ?_
      · exact hL _ rfl
      · exact hL _ rfl

theorem answers_handlePageFaultLocked (h : σ.SpaceOk c) (hv : v ∈ c.vmaSnapshot.ranges)
    (ha : v.contains a = true) {access : Access} (haccess : access ≠ .invalid) (i : SpaceId)
    (origin : FaultOrigin) :
    Answers σ L (handlePageFaultLocked i c a access origin) fun r ↦ L r.1.1 := by
  obtain ⟨hstart, hstop, hpage, haligned⟩ := page_inside h hv ha
  have hlimit := (h.good.ordered.valid v hv).limit
  have hlookup := (VmaSnapshot.lookup_eq_some h.good).2 ⟨hv, contains_iff.1 ha⟩
  obtain ⟨β, hβ, -⟩ := h.find_of_mem hv
  have hvalid : pageAddressIsValid (pageOf a) = true := by
    simp only [pageSize] at hstop
    simp only [pageAddressIsValid, Bool.and_eq_true, decide_eq_true_eq]
    exact ⟨by omega, hpage⟩
  rw [contains_iff] at ha
  refine answers_ite (fun hbad ↦ ?_) fun _ ↦ ?_
  · rcases hbad with hbad | hbad
    · omega
    · exact absurd hbad haccess
  · refine Prog.Yields.bind (P := fun r : Status × Space × FaultInfo ↦ L r.1) ?_ fun r hr ↦ hr
    unfold resolveFault
    dsimp only [faultBegin]
    rw [hlookup]
    dsimp only
    refine answers_ite (fun _ ↦ hL _ rfl) fun _ ↦ ?_
    rw [hβ]
    refine (answers_faultMapped hL hvalid haligned fun n hn ↦ ?_).bind fun r hr ↦ ?_
    · have := offset_inside h hv hβ hstart (Nat.lt_add_of_pos_right (by decide)) hstop hn
      rwa [Nat.add_sub_cancel_left] at this
    · refine answers_ite (fun _ ↦ hr) fun _ ↦ silent_refreshTlb.answers fun _ ↦ ?_
      exact hL _ rfl

/-! ## Synchronisation -/

theorem answers_msyncChunk (h : σ.SpaceOk c) (hv : v ∈ c.vmaSnapshot.ranges)
    (hβ : Binding.find v.mappingCookie c.bindings = some β) (hpage : v.start ≤ page)
    (hlt : page < stop) (hstop : stop ≤ v.stop) (haligned : page % pageSize = 0)
    (hstopAligned : stop % pageSize = 0) (i : SpaceId) :
    Answers σ L (msyncChunk i c v β.backing page stop) fun r ↦ L r.1 ∧ Alike c r.2 := by
  refine answers_step trivial fun info hinfo ↦ ?_
  cases hinfo
  split
  · exact ⟨hL _ rfl, .refl c⟩
  · next n hn =>
    refine answers_ite (fun _ ↦ ?_) fun _ ↦ ⟨hL _ rfl, .refl c⟩
    have hvalid := h.good.ordered.valid v hv
    have hoffset : backingOffset v page % pageSize = 0 := by
      have hstart := hvalid.startAligned
      have hnote := hvalid.offsetAligned
      simp only [backingOffset, pageSize] at haligned hstart hnote ⊢
      omega
    have hlength : (stop - page) % pageSize = 0 := by
      simp only [pageSize] at haligned hstopAligned ⊢
      omega
    refine (Note.answers_syncRange hL (by omega) hoffset hlength
      (offset_inside h hv hβ hpage hlt hstop hn)).bind fun status hstatus ↦ ?_
    refine answers_ite (fun _ ↦ ⟨hstatus, .refl c⟩) fun _ ↦ ?_
    exact silent_clearDirtyLocked.answers fun _ ↦ ⟨hL _ rfl, alike_setTable⟩

theorem answers_msyncLoop (hstop : stop % pageSize = 0) (fuel : ℕ) (h : σ.SpaceOk c)
    (hpage : page % pageSize = 0)
    (hmapped : ∀ a, page ≤ a → a < stop → ∃ v ∈ c.vmaSnapshot.ranges, v.contains a = true)
    (i : SpaceId) : Answers σ L (msyncLoop i stop fuel c page .ok) fun r ↦ L r.1 := by
  induction fuel generalizing c page with
  | zero => exact hL _ rfl
  | succ fuel ih =>
    refine answers_ite (fun hlt ↦ ?_) fun _ ↦ hL _ rfl
    obtain ⟨v, hv, hcontains⟩ := hmapped page le_rfl hlt
    have hlookup := (VmaSnapshot.lookup_eq_some h.good).2 ⟨hv, contains_iff.1 hcontains⟩
    obtain ⟨hnext, hstart⟩ :=
      (VmaSnapshot.lookup_iff_findNext h.good.ordered h.good.root).1 hlookup
    obtain ⟨β, hβ, -⟩ := h.find_of_mem hv
    rw [contains_iff] at hcontains
    have hvstop := (h.good.ordered.valid v hv).stopAligned
    have hchunk : min v.stop stop % pageSize = 0 := by
      rcases min_choice v.stop stop with hmin | hmin <;> rw [hmin] <;> assumption
    rw [hnext]
    dsimp only
    rw [if_neg hstart.not_gt, hβ]
    refine (answers_msyncChunk hL h hv hβ hstart (lt_min hcontains.2 hlt) (min_le_left _ _)
      hpage hchunk i).bind fun r hr ↦ answers_ite (fun _ ↦ hr.1) fun _ ↦ ?_
    refine ih (h.alike hr.2) hchunk fun a hle ↦ ?_
    rw [hr.2.vmaSnapshot]
    exact hmapped a ((lt_min hcontains.2 hlt).le.trans hle)

end Space

end Chain

/-! ## The calls -/

/-- No lookup and no check of an argument has failed: a status that those give is the error of a
file, and `NOT_FOUND` one that a file had before. -/
def Sys.Passed (s s' : Sys) (status : Status) : Prop :=
  (status = .notFound → s.Latched status) ∧ (status = .invalidArgument → s'.Latched status)

namespace Space

variable {α : Type} {s : Sys} {i : SpaceId} {v : Vma} {a address length : ℕ}

theorem withLock_passed {busy : α} {body : Space → Code (α × Space)} (status : α → Status)
    (hbusy : status busy = .busy) (hsilent : Silent (body (s.space i)))
    (hbody : ∀ L : Status → Prop,
      (∀ status, status.passes = true → L status) →
      Answers s L (body (s.space i)) fun r ↦ L (status r.1)) :
    Ends (withLock i busy body) s fun r s' ↦ s.Passed s' (status r) := by
  have hlock : Ends (.step (.lockSpace i)) s fun c s1 ↦
      c = s.space i ∧ s.Same s1 ∧ s1.store = s.store := by
    refine Prog.ends_step fun c s1 hexec ↦ ?_
    have hsame := Sys.lock_same hexec
    simp only [Sys.exec, Sys.lock] at hexec
    split at hexec <;> cases hexec
    exact ⟨rfl, hsame, rfl⟩
  refine hlock.bind ?_
  rintro _ s1 ⟨rfl, hsame, hstore⟩
  refine ends_ite (fun _ ↦ ends_exec rfl (Prog.ends_pure ?_)) fun _ ↦ ?_
  · rw [hbusy]
    exact ⟨Status.noConfusion, Status.noConfusion⟩
  · refine Prog.Ends.bind (Q := fun r s2 ↦ s.Passed s2 (status r.1)) (fun r s2 hrun ↦ ?_)
      fun r s2 hr ↦ ends_exec rfl (Prog.ends_pure ⟨hr.1, hr.2⟩)
    have hlatches := hstore ▸ Silent.latches hsilent hrun
    have hfrom : s2.FromFile (status r.1) := by
      refine Answers.run (hbody _ fun st hpasses hbad ↦ ?_) hsilent hsame hrun
      rcases hbad with rfl | rfl <;> cases hpasses
    refine ⟨fun hst ↦ ?_, fun hst ↦ hfrom (.inr hst)⟩
    obtain ⟨file, hfile⟩ := hfrom (.inl hst)
    refine ⟨file, (hlatches.before fun e he ↦ ?_).trans hfile⟩
    rw [hfile, hst] at he
    cases e <;> cases he

theorem handlePageFault_passed (h : s.SpaceOk (s.space i))
    (hv : v ∈ (s.space i).vmaSnapshot.ranges) (ha : v.contains a = true) {access : Access}
    (haccess : access ≠ .invalid) :
    Ends (handlePageFault i a access) s fun r s' ↦ s.Passed s' r.1 :=
  withLock_passed Prod.fst rfl (quiet_handlePageFaultLocked i _ a access _).silent fun _ hL ↦
    answers_handlePageFaultLocked hL h hv ha haccess i _

theorem memoryPrepareRange_mapped (h : s.SpaceOk (s.space i)) (haligned : address % pageSize = 0)
    (hlength : 0 < length)
    (hmapped : ∀ a, address ≤ a → a < address + length →
      ∃ v ∈ (s.space i).vmaSnapshot.ranges, v.contains a = true) :
    ∃ stop, memoryPrepareRange address length = some ⟨address, stop⟩ ∧ stop % pageSize = 0 ∧
      ∀ a, address ≤ a → a < stop →
        ∃ v ∈ (s.space i).vmaSnapshot.ranges, v.contains a = true := by
  obtain ⟨v, hv, hlast⟩ := hmapped (address + length - 1) (by omega) (by omega)
  have hvalid := h.good.ordered.valid v hv
  have hstop := hvalid.stopAligned
  have hlimit := hvalid.limit
  rw [contains_iff] at hlast
  simp only [pageSize, userAddressLimit] at haligned hstop hlimit
  refine ⟨address + (length + pageSize - 1) / pageSize * pageSize, ?_, ?_, fun a hle hlt ↦ ?_⟩
  · rw [memoryPrepareRange, if_neg, if_neg]
    · simp only [pageSize, userAddressLimit]
      omega
    · simp only [pageSize, sizeMax]
      omega
  · simp only [pageSize]
    omega
  · -- the rest of the last page is in the mapping of the last byte
    by_cases hinside : a < address + length
    · exact hmapped a hle hinside
    · refine ⟨v, hv, contains_iff.2 ?_⟩
      simp only [pageSize] at hlt
      omega

theorem msync_passed (h : s.SpaceOk (s.space i)) (haligned : address % pageSize = 0)
    (hlength : 0 < length)
    (hmapped : ∀ a, address ≤ a → a < address + length →
      ∃ v ∈ (s.space i).vmaSnapshot.ranges, v.contains a = true) :
    Ends (msync i address length) s fun status s' ↦ s.Passed s' status := by
  obtain ⟨stop, hrange, hstop, hpages⟩ := memoryPrepareRange_mapped h haligned hlength hmapped
  rw [msync, if_neg hlength.ne', hrange]
  exact withLock_passed id rfl (quiet_msyncLoop i _ _ _ _ _).silent fun _ hL ↦
    answers_msyncLoop hL hstop _ h haligned hpages i

end Space

end MiniMM
