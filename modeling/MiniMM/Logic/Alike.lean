import MiniMM.Logic.Quiet

/-!
# Calls that only change page tables

Faults, accesses, locking and advice work on the page table of a space and on its fault trace; its
mappings and bindings stay as they are.
-/

namespace MiniMM

open Code

/-- The spaces have the same mappings and bindings. -/
structure Space.Alike (c c' : Space) : Prop where
  vmaSnapshot : c'.vmaSnapshot = c.vmaSnapshot
  bindings : c'.bindings = c.bindings
  nextMappingCookie : c'.nextMappingCookie = c.nextMappingCookie

namespace Space

variable {i : SpaceId} {c c' c'' : Space} {t : PageTable} {address page start stop length : ℕ}

theorem Alike.refl (c : Space) : Alike c c := ⟨rfl, rfl, rfl⟩

theorem Alike.trans (h : Alike c c') (h' : Alike c' c'') : Alike c c'' :=
  ⟨h'.vmaSnapshot.trans h.vmaSnapshot, h'.bindings.trans h.bindings,
    h'.nextMappingCookie.trans h.nextMappingCookie⟩

theorem alike_setTable : Alike c (c.setTable t) := ⟨rfl, rfl, rfl⟩

theorem alike_faultTraceAppend {fault : FaultInfo} : Alike c (c.faultTraceAppend fault) := by
  unfold faultTraceAppend
  split <;> exact ⟨rfl, rfl, rfl⟩

section Rules

variable {α β : Type} {p : Code α} {f : α → Code β} {Q : α → Prop} {R : β → Prop} {cond : Prop}
  [Decidable cond]

theorem quiet_seq (hp : Silent p) (hf : ∀ a, Quiet (f a) R) : Quiet (p >>= f) R :=
  Prog.Yields.bind hp fun a _ ↦ hf a

theorem quiet_ite {q : Code α} (hp : Quiet p Q) (hq : Quiet q Q) :
    Quiet (if cond then p else q) Q := by
  split <;> assumption

end Rules

/-! ## Faults -/

@[simp] theorem silent_residentFrame {b : BackingId} {offset : ℕ} :
    Silent (residentFrame b offset) := by
  refine silent_bind Backing.silent_getFrame fun _ ↦ silent_ite trivial ?_
  refine silent_bind silent_frameEnsureResident fun _ ↦ ?_
  exact silent_ite (silent_bind silent_frameRelease fun _ ↦ trivial) trivial

theorem quiet_populatePageLocked (c : Space) (address : ℕ) :
    Quiet (c.populatePageLocked address) fun r ↦ Alike c r.2 := by
  unfold populatePageLocked
  refine quiet_ite (.refl c) ?_
  split
  · exact .refl c
  split
  · exact .refl c
  split
  · exact quiet_seq silent_frameEnsureResident fun _ ↦ .refl c
  refine quiet_seq Backing.silent_info fun _ ↦ quiet_seq silent_residentFrame fun _ ↦ ?_
  refine quiet_ite (.refl c) (quiet_seq PageTable.silent_map fun _ ↦ ?_)
  exact quiet_seq silent_frameRelease fun _ ↦ alike_setTable

@[simp] theorem silent_faultFrame {b : BackingId} {kind : BackingKind} {offset : ℕ}
    {write : Bool} : Silent (faultFrame b kind offset write) := by
  refine silent_ite (silent_bind Backing.silent_getFrame fun _ ↦ ?_) silent_residentFrame
  refine silent_ite trivial (silent_bind silent_frameCopy fun _ ↦ ?_)
  exact silent_bind silent_frameRelease fun _ ↦ trivial

@[simp] theorem silent_faultMapped {mapping : Vma} {b : BackingId} {fault : FaultInfo} :
    Silent (faultMapped c mapping b fault) := by
  refine silent_bind Backing.silent_info fun i ↦ ?_
  split
  · refine silent_bind silent_faultFrame fun _ ↦ silent_ite trivial ?_
    refine silent_bind PageTable.silent_map fun _ ↦ silent_bind silent_frameRelease fun _ ↦ ?_
    exact silent_ite trivial trivial
  · refine silent_ite ?_ (silent_ite trivial ?_)
    · refine silent_bind silent_frameCopy fun _ ↦ silent_ite trivial ?_
      refine silent_bind PageTable.silent_replaceFrame fun _ ↦ ?_
      exact silent_bind silent_frameRelease fun _ ↦ silent_ite trivial trivial
    · refine silent_bind silent_frameEnsureResident fun _ ↦ silent_ite trivial ?_
      refine silent_bind PageTable.silent_updateFlags fun _ ↦ silent_ite trivial ?_
      exact silent_ite trivial trivial

@[simp] theorem silent_refreshTlb : Silent (refreshTlb i t page) := by
  refine silent_bind Tlb.silent_invalidatePage fun _ ↦ ?_
  split
  · trivial
  · exact Tlb.silent_insert

theorem quiet_resolveFault (i : SpaceId) (c : Space) (fault : FaultInfo) :
    Quiet (resolveFault i c fault) fun r ↦ Alike c r.2.1 := by
  unfold resolveFault
  split
  · exact .refl c
  refine quiet_ite (.refl c) ?_
  split
  · exact .refl c
  refine quiet_seq silent_faultMapped fun _ ↦ quiet_ite alike_setTable ?_
  exact quiet_seq silent_refreshTlb fun _ ↦ alike_setTable

theorem quiet_handlePageFaultLocked (i : SpaceId) (c : Space) (address : ℕ) (access : Access)
    (origin : FaultOrigin) :
    Quiet (handlePageFaultLocked i c address access origin) fun r ↦ Alike c r.2 := by
  refine quiet_ite (.refl c) ((quiet_resolveFault i _ _).bind fun r hr ↦ ?_)
  exact Alike.trans ⟨hr.vmaSnapshot, hr.bindings, hr.nextMappingCookie⟩ alike_faultTraceAppend

/-! ## Accesses -/

theorem quiet_refillFlags (c : Space) (page : ℕ) (pte : Pte) (flags : PteFlags) :
    Quiet (refillFlags c page pte flags) fun r ↦ Alike c r.2.1 := by
  refine quiet_ite (.refl c) (quiet_seq PageTable.silent_updateFlags fun r ↦ ?_)
  refine quiet_ite (quiet_seq silent_store fun _ ↦ alike_setTable) ?_
  split <;> exact alike_setTable

theorem quiet_refillFault {access : Access} {again : Space → Code (Status × Space × Option Pte)}
    (hagain : ∀ c, Quiet (again c) fun r ↦ Alike c r.2.1) (c : Space) :
    Quiet (refillFault i address access again c) fun r ↦ Alike c r.2.1 := by
  refine (quiet_handlePageFaultLocked i c address access .access).bind fun r hr ↦ ?_
  refine quiet_ite hr ?_
  split
  · exact hr
  · refine quiet_seq silent_store fun _ ↦ quiet_ite hr ?_
    exact (hagain _).mono fun _ hr' ↦ hr.trans hr'

theorem quiet_refillLoop (i : SpaceId) (address : ℕ) (access : Access) (write : Bool) (spin : ℕ)
    (c : Space) : Quiet (refillLoop i address access write spin c) fun r ↦ Alike c r.2.1 := by
  induction spin generalizing c with
  | zero => exact quiet_seq (silent_step trivial) fun _ ↦ .refl c
  | succ spin ih =>
    rw [refillLoop]
    split
    · exact quiet_refillFault ih c
    refine quiet_seq (silent_bind silent_store fun _ ↦ trivial) fun _ ↦ ?_
    refine quiet_ite (quiet_refillFault ih c) (quiet_seq silent_store fun _ ↦ ?_)
    refine quiet_ite (ih c) ((quiet_refillFlags c _ _ _).bind fun r hr ↦ ?_)
    exact hr

theorem quiet_translateLocked (i : SpaceId) (c : Space) (address : ℕ) (access : Access)
    (write : Bool) (spin : ℕ) :
    Quiet (translateLocked i c address access write spin) fun r ↦ Alike c r.2.1 := by
  have hhit : Silent (translateHit i address access write) := by
    refine silent_bind Tlb.silent_lookup fun found ↦ ?_
    split
    · trivial
    · refine silent_ite (silent_bind silent_frameRelease fun _ ↦ trivial) ?_
      refine silent_bind silent_store fun _ ↦ silent_ite trivial ?_
      exact silent_bind silent_frameRelease fun _ ↦ trivial
  refine quiet_seq hhit fun hit ↦ ?_
  split
  · exact .refl c
  refine (quiet_refillLoop i address access write spin c).bind fun r hr ↦ ?_
  obtain ⟨status, c', pte⟩ := r
  cases pte with
  | none => exact hr
  | some pte => exact quiet_seq Tlb.silent_insert fun _ ↦ quiet_seq silent_frameRetain fun _ ↦ hr

theorem quiet_accessChunk (i : SpaceId) (c : Space) (address completed chunk : ℕ) (access : Access)
    (x : Transfer) (spin : ℕ) :
    Quiet (accessChunk i c address completed chunk access x spin) fun r ↦ Alike c r.2.1 := by
  have hdeny : Quiet (accessChunk.deny i c address access) fun r ↦ Alike c r.2.1 :=
    (quiet_handlePageFaultLocked i c address access .access).bind fun r hr ↦ hr
  have hmove : ∀ f, Silent (transferChunk f (address % pageSize) completed chunk x) := by
    intro f
    cases x with
    | read length => exact silent_frameRead
    | write bytes => exact silent_bind silent_frameWrite fun _ ↦ trivial
  unfold accessChunk
  split
  · exact hdeny
  refine quiet_ite hdeny ((quiet_translateLocked i c address access _ spin).bind fun r hr ↦ ?_)
  obtain ⟨status, c', pte⟩ := r
  cases pte with
  | none => exact hr
  | some pte =>
    refine quiet_ite (quiet_seq silent_store fun _ ↦ quiet_seq silent_frameRelease fun _ ↦ hr) ?_
    refine quiet_seq (hmove _) fun _ ↦ ?_
    exact quiet_seq silent_store fun _ ↦ quiet_seq silent_frameRelease fun _ ↦ hr

theorem quiet_accessLoop (i : SpaceId) (address : ℕ) (access : Access) (x : Transfer)
    (spin fuel : ℕ) (c : Space) (completed : ℕ) (bytes : List UInt8) :
    Quiet (accessLoop i address access x spin fuel c completed bytes) fun r ↦ Alike c r.2 := by
  induction fuel generalizing c completed bytes with
  | zero => exact .refl c
  | succ fuel ih =>
    refine quiet_ite ((quiet_accessChunk i c _ _ _ access x spin).bind fun r hr ↦ ?_) (.refl c)
    exact quiet_ite hr ((ih _ _ _).mono fun _ hr' ↦ hr.trans hr')

/-! ## Memory calls -/

@[simp] theorem silent_clearDirtyLocked : Silent (clearDirtyLocked i t start stop) := by
  refine silent_bind (PageTable.silent_walkRange fun t page ↦ ?_) fun _ ↦ trivial
  split
  · trivial
  · refine silent_ite (silent_bind PageTable.silent_updateAttributes fun _ ↦ ?_) trivial
    exact silent_bind Tlb.silent_invalidatePage fun _ ↦ trivial

theorem quiet_msyncChunk (i : SpaceId) (c : Space) (mapping : Vma) (b : BackingId)
    (page stop : ℕ) : Quiet (msyncChunk i c mapping b page stop) fun r ↦ Alike c r.2 := by
  refine quiet_seq Backing.silent_info fun info ↦ ?_
  split
  · exact .refl c
  · refine quiet_ite (quiet_seq Note.silent_syncRange fun _ ↦ ?_) (.refl c)
    exact quiet_ite (.refl c) (quiet_seq silent_clearDirtyLocked fun _ ↦ alike_setTable)

theorem quiet_msyncLoop (i : SpaceId) (stop fuel : ℕ) (c : Space) (page : ℕ) (unmapped : Status) :
    Quiet (msyncLoop i stop fuel c page unmapped) fun r ↦ Alike c r.2 := by
  induction fuel generalizing c page unmapped with
  | zero => exact .refl c
  | succ fuel ih =>
    refine quiet_ite ?_ (.refl c)
    split
    · exact .refl c
    refine quiet_ite (ih _ _ _) ?_
    split
    · exact .refl c
    refine (quiet_msyncChunk i c _ _ _ _).bind fun r hr ↦ ?_
    exact quiet_ite hr ((ih _ _ _).mono fun _ hr' ↦ hr.trans hr')

theorem silent_mincoreLoop (c : Space) (pages page : ℕ) (flags : List MincoreFlags) :
    Silent (mincoreLoop c pages page flags) := by
  have hpage : ∀ page, Silent (mincorePage c page) := by
    intro page
    unfold mincorePage
    split
    · trivial
    split
    · exact silent_bind (silent_bind silent_store fun _ ↦ trivial) fun _ ↦ trivial
    split
    · trivial
    refine silent_bind Backing.silent_peekFrame fun _ ↦ silent_ite ?_ (silent_ite trivial trivial)
    exact silent_bind silent_store fun _ ↦ silent_bind silent_frameRelease fun _ ↦ trivial
  induction pages generalizing page flags with
  | zero => trivial
  | succ pages ih => exact silent_bind (hpage page) fun _ ↦ silent_ite trivial (ih _ _)

theorem silent_snapshotMlockPages (c : Space) (pages page : ℕ) :
    Silent (snapshotMlockPages c pages page) := by
  induction pages generalizing page with
  | zero => trivial
  | succ pages ih =>
    rw [snapshotMlockPages]
    split
    · exact silent_bind (ih _) fun _ ↦ trivial
    · exact silent_bind silent_frameRetain fun _ ↦ silent_bind (ih _) fun _ ↦ trivial

theorem silent_releaseMlockSnapshots (saved : List (ℕ × Option Pte)) :
    Silent (releaseMlockSnapshots saved) := by
  induction saved with
  | nil => trivial
  | cons p rest ih =>
    obtain ⟨page, _ | pte⟩ := p
    · exact ih
    · exact silent_bind silent_frameRelease fun _ ↦ ih

theorem silent_restoreMlockPages (i : SpaceId) (saved : List (ℕ × Option Pte)) (t : PageTable)
    (rollback : Status) : Silent (restoreMlockPages i saved t rollback) := by
  have hpage : ∀ (t : PageTable) page pte, Silent (restoreMlockPage t page pte) := by
    intro t page pte
    cases pte with
    | none => exact silent_ite PageTable.silent_unmap trivial
    | some pte => exact silent_ite PageTable.silent_map PageTable.silent_replaceFrame
  induction saved generalizing t rollback with
  | nil => trivial
  | cons p rest ih =>
    refine silent_ite (ih _ _) (silent_bind Tlb.silent_invalidatePage fun _ ↦ ?_)
    exact silent_bind (hpage _ _ _) fun _ ↦ ih _ _

theorem quiet_mlockEntry (i : SpaceId) (c : Space) (page : ℕ) (pte : Pte) :
    Quiet (mlockEntry i c page pte) fun r ↦ Alike c r.2 := by
  refine quiet_seq (silent_ite trivial PageTable.silent_updateAttributes) fun _ ↦ ?_
  refine quiet_ite alike_setTable (quiet_seq (silent_when Tlb.silent_invalidatePage) fun _ ↦ ?_)
  exact (quiet_populatePageLocked _ page).mono fun _ hr ↦ alike_setTable.trans hr

theorem quiet_mlockPage (i : SpaceId) (c : Space) (page : ℕ) :
    Quiet (mlockPage i c page) fun r ↦ Alike c r.2 := by
  unfold mlockPage
  split
  · exact quiet_mlockEntry i c page _
  refine (quiet_populatePageLocked c page).bind fun r hr ↦ quiet_ite hr ?_
  split
  · exact hr
  · exact (quiet_mlockEntry i _ page _).mono fun _ hr' ↦ hr.trans hr'

theorem quiet_mlockLoop (i : SpaceId) (pages : ℕ) (c : Space) (page attempted : ℕ) :
    Quiet (mlockLoop i pages c page attempted) fun r ↦ Alike c r.2.2 := by
  induction pages generalizing c page attempted with
  | zero => exact .refl c
  | succ pages ih =>
    refine (quiet_mlockPage i c page).bind fun r hr ↦ ?_
    exact quiet_ite hr ((ih _ _ _).mono fun _ hr' ↦ hr.trans hr')

theorem quiet_mlockLocked (i : SpaceId) (r : MemoryRange) (c : Space) :
    Quiet (mlockLocked i r c) fun r ↦ Alike c r.2 := by
  refine quiet_seq (silent_snapshotMlockPages _ _ _) fun saved ↦ ?_
  refine (quiet_mlockLoop i _ c _ _).bind fun r hr ↦ ?_
  have hback : Quiet (mlockRollback i r.2.2 saved r.2.1 r.1) fun x ↦ Alike c x.2 :=
    quiet_ite (quiet_seq (silent_restoreMlockPages _ _ _ _) fun _ ↦ hr.trans alike_setTable) hr
  exact hback.bind fun x hx ↦ quiet_seq (silent_releaseMlockSnapshots _) fun _ ↦ hx

@[simp] theorem silent_munlockBody : Silent (munlockBody i t page) := by
  unfold munlockBody
  split
  · trivial
  · refine silent_ite (silent_bind PageTable.silent_updateAttributes fun _ ↦ ?_) trivial
    exact silent_ite trivial (silent_bind Tlb.silent_invalidatePage fun _ ↦ trivial)

theorem silent_willneedLocked (c : Space) (stop fuel cursor : ℕ) :
    Silent (willneedLocked c stop fuel cursor) := by
  have hpages : ∀ mapping b pages page, Silent (willneedPages c mapping b pages page) := by
    intro mapping b pages
    induction pages with
    | zero => exact fun _ ↦ trivial
    | succ pages ih =>
      intro page
      refine silent_bind ?_ fun _ ↦ silent_ite trivial (ih _)
      unfold willneedPage
      split
      · exact silent_bind silent_frameEnsureResident fun _ ↦ trivial
      · refine silent_bind Backing.silent_getFrame fun _ ↦ silent_ite trivial ?_
        refine silent_bind silent_frameEnsureResident fun _ ↦ ?_
        exact silent_bind silent_frameRelease fun _ ↦ trivial
  have hbody : ∀ t page, Silent (willneedBody t page) := by
    intro t page
    unfold willneedBody
    split
    · trivial
    · exact silent_bind silent_frameEnsureResident fun _ ↦ trivial
  induction fuel generalizing cursor with
  | zero => trivial
  | succ fuel ih =>
    refine silent_ite ?_ trivial
    split
    · trivial
    refine silent_ite trivial ?_
    split
    · trivial
    refine silent_bind Backing.silent_info fun _ ↦
      silent_bind ?_ fun _ ↦ silent_ite trivial (ih _)
    exact silent_ite (hpages _ _ _ _)
      (silent_bind (PageTable.silent_walkRange hbody) fun _ ↦ trivial)

theorem quiet_walkRange (r : MemoryRange) {body : PageTable → ℕ → Code (Status × PageTable)}
    (hbody : ∀ t page, Silent (body t page)) :
    Quiet (do
      let (status, t) ← c.pageTable.walkRange r.start r.stop body
      pure (status, c.setTable t)) fun r ↦ Alike c r.2 :=
  quiet_seq (PageTable.silent_walkRange hbody) fun _ ↦ alike_setTable

theorem quiet_madviseLocked (i : SpaceId) (r : MemoryRange) (advice : Advice) (c : Space) :
    Quiet (madviseLocked i r advice c) fun r ↦ Alike c r.2 := by
  have hguarded : ∀ {pins : Bool} {body : PageTable → ℕ → Code (Status × PageTable)},
      (∀ t page, Silent (body t page)) →
      Quiet (madviseLocked.reclaimable r c pins body) fun r ↦ Alike c r.2 := by
    intro pins body hbody
    refine quiet_seq (PageTable.silent_walkRange fun t page ↦ ?_) fun _ ↦
      quiet_ite (.refl c) (quiet_walkRange r hbody)
    unfold reclaimableBody
    split
    · trivial
    · exact silent_bind silent_store fun _ ↦ trivial
  cases advice with
  | normal | random | sequential | invalid => exact .refl c
  | willneed => exact quiet_seq (silent_willneedLocked _ _ _ _) fun _ ↦ .refl c
  | cold =>
    refine quiet_walkRange r fun t page ↦ ?_
    unfold coldBody
    split
    · trivial
    · refine silent_bind PageTable.silent_updateAttributes fun _ ↦ silent_ite trivial ?_
      exact silent_bind Tlb.silent_invalidatePage fun _ ↦
        silent_bind silent_store fun _ ↦ trivial
  | dontneed =>
    refine hguarded fun t page ↦ ?_
    unfold dontneedBody
    split
    · trivial
    · refine silent_ite trivial (silent_bind Tlb.silent_invalidatePage fun _ ↦ ?_)
      exact silent_bind PageTable.silent_unmap fun _ ↦ trivial
  | pageout =>
    refine hguarded fun t page ↦ ?_
    unfold pageoutBody
    split
    · trivial
    · refine silent_bind silent_store fun _ ↦ silent_ite trivial ?_
      refine silent_bind PageTable.silent_updateAttributes fun _ ↦ ?_
      exact silent_bind Tlb.silent_invalidatePage fun _ ↦ trivial

/-! ## Tables of mappings that are copied or moved -/

@[simp] theorem silent_unmapPagesLocked : Silent (unmapPagesLocked i t start stop) :=
  silent_bind Tlb.silent_invalidateRange fun _ ↦
    silent_bind (PageTable.silent_walkRange (PageTable.silent_ignoring fun _ _ ↦
      PageTable.silent_unmap)) fun _ ↦ trivial

theorem quiet_populateRange (pages : ℕ) (c : Space) (page : ℕ) :
    Quiet (populateRange pages c page) fun c' ↦ Alike c c' := by
  induction pages generalizing c page with
  | zero => exact .refl c
  | succ pages ih =>
    refine (quiet_populatePageLocked c page).bind fun r hr ↦ ?_
    exact quiet_ite hr ((ih _ _).mono fun _ hr' ↦ hr.trans hr')

theorem silent_collectCopyPages {p : Code (Status × List (ℕ × Pte))}
    (hp : collectCopyPages t start stop = p) : Silent p := by
  rw [← hp]
  unfold collectCopyPages
  generalize t.entries = entries
  refine silent_ite trivial (silent_ite trivial ?_)
  exact silent_bind silent_malloc fun _ ↦ trivial

section Copy

variable {source destination : ℕ} {copyOnWrite : Bool}

theorem silent_unmapCopyPages (pages : List (ℕ × Pte)) (t : PageTable) :
    Silent (unmapCopyPages source destination pages t) := by
  induction pages generalizing t with
  | nil => trivial
  | cons p rest ih =>
    exact silent_ite (silent_bind PageTable.silent_unmap fun _ ↦ ih _) (ih _)

theorem silent_copyPtesLocked (pages done : List (ℕ × Pte)) (t : PageTable) :
    Silent (copyPtesLocked source destination copyOnWrite pages done t) := by
  induction pages generalizing done t with
  | nil => trivial
  | cons p rest ih =>
    refine silent_bind PageTable.silent_map fun _ ↦ silent_ite ?_ (ih _ _)
    exact silent_bind (silent_unmapCopyPages _ _) fun _ ↦ trivial

theorem silent_restoreSourceState (pages : List (ℕ × Pte)) (t : PageTable) :
    Silent (restoreSourceState pages t) := by
  induction pages generalizing t with
  | nil => trivial
  | cons p rest ih => exact silent_bind PageTable.silent_updateAttributes fun _ ↦ ih _

theorem silent_updateSourceState (pages done : List (ℕ × Pte)) (t : PageTable) :
    Silent (updateSourceState copyOnWrite pages done t) := by
  induction pages generalizing done t with
  | nil => trivial
  | cons p rest ih =>
    refine silent_bind PageTable.silent_updateAttributes fun _ ↦ silent_ite ?_ (ih _ _)
    exact silent_bind (silent_restoreSourceState _ _) fun _ ↦ trivial

theorem silent_copyEntries {pages : List (ℕ × Pte)} :
    Silent (copyEntries i t source destination length copyOnWrite pages) := by
  refine silent_bind (silent_copyPtesLocked _ _ _) fun _ ↦ silent_ite trivial ?_
  refine silent_bind (silent_updateSourceState _ _ _) fun _ ↦ silent_ite ?_ ?_
  · exact silent_bind (silent_unmapCopyPages _ _) fun _ ↦ trivial
  · exact silent_bind Tlb.silent_invalidateRange fun _ ↦
      silent_bind Tlb.silent_invalidateRange fun _ ↦ trivial

end Copy

section Move

variable {source destination sourceLength : ℕ}

theorem silent_movePtesLocked : Silent (movePtesLocked i t source destination length) := by
  have hbody : ∀ t page, Silent (moveBody source destination t page) := by
    intro t page
    unfold moveBody
    split
    · trivial
    · exact PageTable.silent_map
  refine silent_bind (PageTable.silent_walkRange hbody) fun _ ↦ silent_ite ?_ ?_
  · exact silent_bind silent_unmapPagesLocked fun _ ↦ trivial
  · exact silent_bind Tlb.silent_invalidateRange fun _ ↦
      silent_bind silent_unmapPagesLocked fun _ ↦ trivial

theorem silent_replacePteLocked {pte : Pte} : Silent (replacePteLocked t address pte) :=
  silent_ite PageTable.silent_map PageTable.silent_replaceFrame

theorem silent_restoreSaved (saved : List SavedPage) (t : PageTable) :
    Silent (restoreSaved saved t) := by
  induction saved generalizing t with
  | nil => trivial
  | cons p rest ih => exact silent_bind silent_replacePteLocked fun _ ↦ ih _

theorem silent_savePages (pages : List (ℕ × Pte)) (saved : List SavedPage) :
    Silent (savePages pages saved) := by
  induction pages generalizing saved with
  | nil => trivial
  | cons p rest ih =>
    refine silent_bind silent_frameRetain fun _ ↦ silent_ite ?_ (ih _)
    exact silent_bind silent_store fun _ ↦ silent_ite (ih _) trivial

theorem silent_releaseSaved (saved : List SavedPage) : Silent (releaseSaved saved) := by
  induction saved with
  | nil => trivial
  | cons p rest ih =>
    exact silent_bind (silent_when silent_store) fun _ ↦
      silent_bind silent_frameRelease fun _ ↦ ih

theorem silent_moveSavedLocked {saved : List SavedPage} :
    Silent (moveSavedLocked i t source sourceLength destination length saved) := by
  have hunmap : ∀ t page, Silent (PageTable.ignoring PageTable.unmap t page) :=
    PageTable.silent_ignoring fun _ _ ↦ PageTable.silent_unmap
  have hreplace : ∀ t page, Silent (replaceBody source destination t page) := by
    intro t page
    unfold replaceBody
    split
    · trivial
    · exact silent_replacePteLocked
  refine silent_bind (PageTable.silent_walkRange hreplace) fun _ ↦ silent_ite ?_ ?_
  · refine silent_bind (silent_bind (silent_restoreSaved _ _) fun _ ↦ ?_) fun _ ↦ trivial
    refine silent_bind (PageTable.silent_walkRange fun t page ↦ ?_) fun _ ↦
      silent_bind Tlb.silent_invalidateRange fun _ ↦ trivial
    exact silent_ite (hunmap t page) trivial
  · refine silent_bind (PageTable.silent_walkRange fun t page ↦ silent_ite trivial (hunmap t page))
      fun _ ↦ silent_bind Tlb.silent_invalidateRange fun _ ↦ ?_
    exact silent_bind silent_unmapPagesLocked fun _ ↦ trivial

theorem silent_movePtesFixedLocked {p : Code (Status × PageTable)}
    (hp : movePtesFixedLocked i t source sourceLength destination length = p) : Silent p := by
  rw [← hp]
  unfold movePtesFixedLocked
  generalize hcollect : collectCopyPages t destination (destination + length) = collect
  refine silent_bind (silent_collectCopyPages hcollect) fun _ ↦ silent_ite trivial ?_
  refine silent_bind (silent_savePages _ _) fun _ ↦ ?_
  refine silent_bind (silent_ite silent_moveSavedLocked trivial) fun _ ↦ ?_
  exact silent_bind (silent_releaseSaved _) fun _ ↦ trivial

end Move

section Fork

variable {snapshot : VmaSnapshot}

theorem silent_forkCopyPtes (entries : List (ℕ × Pte)) (t : PageTable) :
    Silent (forkCopyPtes snapshot entries t) := by
  induction entries generalizing t with
  | nil => trivial
  | cons e rest ih =>
    rw [forkCopyPtes]
    split
    · trivial
    · exact silent_bind PageTable.silent_map fun _ ↦ silent_ite trivial (ih _)

theorem silent_forkCommitParentCow (entries : List (ℕ × Pte)) (t : PageTable) :
    Silent (forkCommitParentCow snapshot entries t) := by
  induction entries generalizing t with
  | nil => trivial
  | cons e rest ih =>
    rw [forkCommitParentCow]
    split
    · trivial
    · exact silent_bind PageTable.silent_updateAttributes fun _ ↦ silent_ite trivial (ih _)

theorem silent_forkTables {p : Code (Status × PageTable × PageTable)} (hp : forkTables i c = p) :
    Silent p := by
  rw [← hp]
  unfold forkTables
  generalize c.pageTable.entries = entries
  refine silent_bind (silent_forkCopyPtes _ _) fun _ ↦ silent_ite trivial ?_
  refine silent_bind (silent_forkCommitParentCow _ _) fun _ ↦ silent_ite trivial ?_
  exact silent_bind Tlb.silent_flush fun _ ↦ trivial

end Fork

end Space

end MiniMM
