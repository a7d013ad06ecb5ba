import MiniMM.Remap

/-!
# The memory calls

`memory_api.c`.
-/

namespace MiniMM

/-- `minimm_memory_range_t`; the pages are those of `[start, stop)`. -/
structure MemoryRange where
  start : ℕ
  stop : ℕ
  deriving DecidableEq, Repr

/-- `page_count`. -/
def MemoryRange.pageCount (r : MemoryRange) : ℕ := (r.stop - r.start) / pageSize

/-- The flags of `minimm_mincore`. -/
structure MincoreFlags where
  resident : Bool := false
  present : Bool := false
  dirty : Bool := false
  locked : Bool := false
  shared : Bool := false
  cow : Bool := false
  accessed : Bool := false
  deriving DecidableEq, Repr

/-- `minimm_advice_t`; `invalid` stands for all other values. -/
inductive Advice where
  | normal
  | random
  | sequential
  | willneed
  | dontneed
  | pageout
  | cold
  | invalid
  deriving DecidableEq, Repr

namespace Space

/-! ## Ranges -/

/-- `minimm_memory_prepare_range`. -/
def memoryPrepareRange (address length : ℕ) : Option MemoryRange :=
  if length = 0 ∨ address % pageSize ≠ 0 ∨ length > sizeMax - (pageSize - 1) then none
  else
    let aligned := (length + pageSize - 1) / pageSize * pageSize
    if address ≥ userAddressLimit ∨ aligned > userAddressLimit - address then none
    else some ⟨address, address + aligned⟩

/-- `minimm_memory_prepare_lock_range`. -/
def memoryPrepareLockRange (address length : ℕ) : Option MemoryRange :=
  let start := pageOf address
  let offset := address - start
  if length = 0 ∨ address ≥ userAddressLimit ∨ length > sizeMax - offset then none
  else if length + offset > sizeMax - (pageSize - 1) then none
  else
    let aligned := (length + offset + (pageSize - 1)) / pageSize * pageSize
    if aligned = 0 ∨ aligned > userAddressLimit - start then none
    else some ⟨start, start + aligned⟩

/-- `minimm_memory_validate_empty_range`. -/
def memoryValidateEmptyRange (i : SpaceId) (address : ℕ) (requireAlignment : Bool) : Code Status :=
  if address ≥ userAddressLimit ∨ (requireAlignment = true ∧ address % pageSize ≠ 0) then
    pure .invalidArgument
  else emptyRangeStatus i

/-- The loop of `minimm_memory_validate_mapped_locked`, at most one round a page. -/
def memoryValidateMapped (s : VmaSnapshot) (stop : ℕ) : ℕ → ℕ → Status
  | 0, _ => .ok
  | fuel + 1, cursor =>
    if cursor < stop then
      match s.findNext cursor with
      | none => .notFound
      | some mapping =>
        if mapping.start > cursor then .notFound
        else memoryValidateMapped s stop fuel (min mapping.stop stop)
    else .ok

/-- `minimm_memory_lock_space` around a body. -/
def withMappedRange {α : Type} (i : SpaceId) (r : MemoryRange) (failed : Status → α)
    (body : Space → Code (α × Space)) : Code α :=
  withLock i (failed .busy) fun c ↦
    let status := memoryValidateMapped c.vmaSnapshot r.stop r.pageCount r.start
    if status ≠ .ok then pure (failed status, c) else body c

/-! ## Synchronisation -/

/-- `minimm_memory_clear_dirty_locked`. -/
def clearDirtyLocked (i : SpaceId) (t : PageTable) (start stop : ℕ) : Code PageTable := do
  let (_, t) ← t.walkRange start stop fun t page ↦
    match t.lookup page with
    | none => pure (.ok, t)
    | some pte =>
      if pte.flags.dirty then do
        let (_, t) ← t.updateAttributes page pte.protection {} { dirty := true }
        Tlb.invalidatePage i page
        pure (.ok, t)
      else pure (.ok, t)
  pure t

/-- What `minimm_msync` does in one mapping. -/
def msyncChunk (i : SpaceId) (c : Space) (mapping : Vma) (b : BackingId) (page stop : ℕ) :
    Code (Status × Space) := do
  let info ← Backing.info b
  match info.note with
  | none => pure (.ok, c)
  | some n =>
    if info.kind = .noteShared then do
      let status ← Note.syncRange n (backingOffset mapping page) (stop - page)
      if status ≠ .ok then pure (status, c)
      else do
        let t ← clearDirtyLocked i c.pageTable page stop
        pure (.ok, c.setTable t)
    else pure (.ok, c)

/-- The loop of `minimm_msync`, at most one round a page, with the status for the holes. -/
def msyncLoop (i : SpaceId) (stop : ℕ) : ℕ → Space → ℕ → Status → Code (Status × Space)
  | 0, c, _, unmapped => pure (unmapped, c)
  | fuel + 1, c, page, unmapped =>
    if page < stop then
      match c.vmaSnapshot.findNext page with
      | none => pure (.notFound, c)
      | some mapping =>
        if mapping.start > page then
          msyncLoop i stop fuel c (min mapping.start stop) .notFound
        else
          match Binding.find mapping.mappingCookie c.bindings with
          | none => pure (.notFound, c)
          | some binding => do
            let (status, c) ← msyncChunk i c mapping binding.backing page (min mapping.stop stop)
            if status ≠ .ok then pure (status, c)
            else msyncLoop i stop fuel c (min mapping.stop stop) unmapped
    else pure (unmapped, c)

/-- `minimm_msync`. -/
def msync (i : SpaceId) (address length : ℕ) : Code Status :=
  if length = 0 then memoryValidateEmptyRange i address true
  else
    match memoryPrepareRange address length with
    | none => pure .invalidArgument
    | some r => withLock i .busy fun c ↦ msyncLoop i r.stop r.pageCount c r.start .ok

/-! ## Residency -/

/-- The flags of a page that has an entry. -/
def mincorePresent (mapping : Vma) (pte : Pte) : Code MincoreFlags := do
  let state ← Code.store (.getState pte.frame)
  pure {
    resident := state.resident
    present := state.resident
    dirty := state.dirty || pte.flags.dirty
    locked := pte.flags.locked
    shared := mapping.shared || pte.flags.shared
    cow := pte.flags.cow
    accessed := pte.flags.accessed }

/-- The flags of a page without an entry, from the cache of its backing. -/
def mincoreCached (mapping : Vma) (b : BackingId) (page : ℕ) : Code (Status × MincoreFlags) := do
  let (status, f) ← Backing.peekFrame b (backingOffset mapping page)
  if status = .ok then do
    let state ← Code.store (.getState f)
    frameRelease f
    pure (.ok, { resident := state.resident, dirty := state.dirty, shared := mapping.shared })
  else if status = .notFound then pure (.ok, { shared := mapping.shared })
  else pure (status, {})

/-- One page of `minimm_mincore`. -/
def mincorePage (c : Space) (page : ℕ) : Code (Status × MincoreFlags) :=
  match c.vmaSnapshot.lookup page with
  | none => pure (.notFound, {})
  | some mapping =>
    match c.pteAt page with
    | some pte => do
      let flags ← mincorePresent mapping pte
      pure (.ok, flags)
    | none =>
      match Binding.find mapping.mappingCookie c.bindings with
      | none => pure (.notFound, {})
      | some binding => mincoreCached mapping binding.backing page

/-- The loop of `minimm_mincore`. -/
def mincoreLoop (c : Space) : ℕ → ℕ → List MincoreFlags → Code (Status × List MincoreFlags)
  | 0, _, flags => pure (.ok, flags)
  | pages + 1, page, flags => do
    let (status, pageFlags) ← mincorePage c page
    if status ≠ .ok then pure (status, flags)
    else mincoreLoop c pages (page + pageSize) (flags ++ [pageFlags])

/-- `minimm_mincore`, for a buffer of `count` entries. -/
def mincore (i : SpaceId) (address length count : ℕ) : Code (Status × List MincoreFlags) :=
  if length = 0 then do
    let status ← memoryValidateEmptyRange i address true
    pure (status, [])
  else
    match memoryPrepareRange address length with
    | none => pure (.invalidArgument, [])
    | some r =>
      if count < r.pageCount then pure (.invalidArgument, [])
      else withMappedRange i r (fun status ↦ (status, [])) fun c ↦ do
        let result ← mincoreLoop c r.pageCount r.start []
        pure (result, c)

/-! ## Locking -/

/-- `minimm_memory_snapshot_mlock_pages_locked`: the entries of the pages, retained. -/
def snapshotMlockPages (c : Space) : ℕ → ℕ → Code (List (ℕ × Option Pte))
  | 0, _ => pure []
  | pages + 1, page =>
    match c.pteAt page with
    | none => do
      let rest ← snapshotMlockPages c pages (page + pageSize)
      pure ((page, none) :: rest)
    | some pte => do
      frameRetain pte.frame
      let rest ← snapshotMlockPages c pages (page + pageSize)
      pure ((page, some pte) :: rest)

/-- `minimm_memory_release_mlock_snapshots`. -/
def releaseMlockSnapshots : List (ℕ × Option Pte) → Code Unit
  | [] => pure ()
  | (_, none) :: rest => releaseMlockSnapshots rest
  | (_, some pte) :: rest => do
    frameRelease pte.frame
    releaseMlockSnapshots rest

/-- Bring back one entry that differs from its snapshot. -/
def restoreMlockPage (t : PageTable) (page : ℕ) : Option Pte → Code (Status × PageTable)
  | none => if (t.lookup page).isSome then t.unmap page else pure (.ok, t)
  | some pte =>
    if (t.lookup page).isNone then t.map page pte.frame pte.protection pte.flags
    else t.replaceFrame page pte.frame pte.protection pte.flags.restore.1 pte.flags.restore.2

/-- `minimm_memory_restore_mlock_pages_locked`, with the first failure so far. -/
def restoreMlockPages (i : SpaceId) :
    List (ℕ × Option Pte) → PageTable → Status → Code (Status × PageTable)
  | [], t, rollback => pure (rollback, t)
  | (page, saved) :: rest, t, rollback =>
    if saved.isSome = true ∧ t.lookup page = saved then restoreMlockPages i rest t rollback
    else do
      Tlb.invalidatePage i page
      let (status, t) ← restoreMlockPage t page saved
      restoreMlockPages i rest t (if rollback = .ok then status else rollback)

/-- Lock an entry, and then make its frame resident: its pin keeps it so. -/
def mlockEntry (i : SpaceId) (c : Space) (page : ℕ) (pte : Pte) : Code (Status × Space) := do
  let (status, t) ← (if pte.flags.locked then pure (.ok, c.pageTable)
    else c.pageTable.updateAttributes page pte.protection { locked := true } {})
  if status ≠ .ok then pure (status, c.setTable t)
  else do
    Code.when (!pte.flags.locked) (Tlb.invalidatePage i page)
    (c.setTable t).populatePageLocked page

/-- One page of `minimm_mlock`. -/
def mlockPage (i : SpaceId) (c : Space) (page : ℕ) : Code (Status × Space) :=
  match c.pteAt page with
  | some pte => mlockEntry i c page pte
  | none => do
    let (status, c) ← c.populatePageLocked page
    if status ≠ .ok then pure (status, c)
    else
      match c.pteAt page with
      | none => pure (.notFound, c)
      | some pte => mlockEntry i c page pte

/-- The loop of `minimm_mlock`: the status and the number of pages attempted. -/
def mlockLoop (i : SpaceId) : ℕ → Space → ℕ → ℕ → Code (Status × ℕ × Space)
  | 0, c, _, attempted => pure (.ok, attempted, c)
  | pages + 1, c, page, attempted => do
    let (status, c) ← mlockPage i c page
    if status ≠ .ok then pure (status, attempted + 1, c)
    else mlockLoop i pages c (page + pageSize) (attempted + 1)

/-- A failed `minimm_mlock` brings the entries back. -/
def mlockRollback (i : SpaceId) (c : Space) (saved : List (ℕ × Option Pte)) (attempted : ℕ)
    (status : Status) : Code (Status × Space) :=
  if status ≠ .ok then do
    let (rollback, t) ← restoreMlockPages i (saved.take attempted) c.pageTable .ok
    pure (if rollback ≠ .ok then rollback else status, c.setTable t)
  else pure (.ok, c)

/-- `minimm_mlock` under the lock. -/
def mlockLocked (i : SpaceId) (r : MemoryRange) (c : Space) : Code (Status × Space) := do
  let saved ← snapshotMlockPages c r.pageCount r.start
  let (status, attempted, c) ← mlockLoop i r.pageCount c r.start 0
  let (status, c) ← mlockRollback i c saved attempted status
  releaseMlockSnapshots saved
  pure (status, c)

/-- `minimm_mlock`. -/
def mlock (i : SpaceId) (address length : ℕ) : Code Status :=
  if length = 0 then memoryValidateEmptyRange i address false
  else
    match memoryPrepareLockRange address length with
    | none => pure .invalidArgument
    | some r => do
      let allocated ← Code.malloc
      if allocated = false then pure .outOfMemory
      else withMappedRange i r id (mlockLocked i r)

/-- The loop of `minimm_munlock`. -/
def munlockBody (i : SpaceId) (t : PageTable) (page : ℕ) : Code (Status × PageTable) :=
  match t.lookup page with
  | none => pure (.ok, t)
  | some pte =>
    if pte.flags.locked then do
      let (status, t) ← t.updateAttributes page pte.protection {} { locked := true }
      if status ≠ .ok then pure (status, t)
      else do
        Tlb.invalidatePage i page
        pure (.ok, t)
    else pure (.ok, t)

/-- `minimm_munlock`. -/
def munlock (i : SpaceId) (address length : ℕ) : Code Status :=
  if length = 0 then memoryValidateEmptyRange i address false
  else
    match memoryPrepareLockRange address length with
    | none => pure .invalidArgument
    | some r => withMappedRange i r id fun c ↦ do
      let (status, t) ← c.pageTable.walkRange r.start r.stop (munlockBody i)
      pure (status, c.setTable t)

/-! ## Advice -/

/-- One page of `minimm_memory_willneed_locked` where the backing has pages of its own. -/
def willneedPage (c : Space) (mapping : Vma) (b : BackingId) (page : ℕ) : Code Status :=
  match c.pteAt page with
  | some pte => do
    let (status, _) ← frameEnsureResident pte.frame
    pure status
  | none => do
    let (status, f, _) ← Backing.getFrame b (backingOffset mapping page)
    if status ≠ .ok then pure status
    else do
      let (status, _) ← frameEnsureResident f
      frameRelease f
      pure status

def willneedPages (c : Space) (mapping : Vma) (b : BackingId) : ℕ → ℕ → Code Status
  | 0, _ => pure .ok
  | pages + 1, page => do
    let status ← willneedPage c mapping b page
    if status ≠ .ok then pure status else willneedPages c mapping b pages (page + pageSize)

/-- The loop over the entries of a private anonymous mapping. -/
def willneedBody (t : PageTable) (page : ℕ) : Code (Status × PageTable) :=
  match t.lookup page with
  | none => pure (.ok, t)
  | some pte => do
    let (status, _) ← frameEnsureResident pte.frame
    pure (status, t)

/-- What `minimm_memory_willneed_locked` does in one mapping. -/
def willneedChunk (c : Space) (mapping : Vma) (b : BackingId) (kind : BackingKind)
    (start stop : ℕ) : Code Status :=
  if kind ≠ .anonPrivate then willneedPages c mapping b ((stop - start) / pageSize) start
  else do
    let (status, _) ← c.pageTable.walkRange start stop willneedBody
    pure status

/-- `minimm_memory_willneed_locked`, at most one round a page. -/
def willneedLocked (c : Space) (stop : ℕ) : ℕ → ℕ → Code Status
  | 0, _ => pure .ok
  | fuel + 1, cursor =>
    if cursor < stop then
      match c.vmaSnapshot.findNext cursor with
      | none => pure .notFound
      | some mapping =>
        if mapping.start > cursor then pure .notFound
        else
          match Binding.find mapping.mappingCookie c.bindings with
          | none => pure .notFound
          | some binding => do
            let info ← Backing.info binding.backing
            let chunkEnd := min mapping.stop stop
            let status ← willneedChunk c mapping binding.backing info.kind cursor chunkEnd
            if status ≠ .ok then pure status else willneedLocked c stop fuel chunkEnd
    else pure .ok

/-- The loop of `minimm_memory_dontneed_locked`. -/
def dontneedBody (i : SpaceId) (t : PageTable) (page : ℕ) : Code (Status × PageTable) :=
  match t.lookup page with
  | none => pure (.ok, t)
  | some pte =>
    if pte.flags.locked then pure (.ok, t)
    else do
      Tlb.invalidatePage i page
      let (_, t) ← t.unmap page
      pure (.ok, t)

/-- The loop of `minimm_memory_cold_locked`. -/
def coldBody (i : SpaceId) (t : PageTable) (page : ℕ) : Code (Status × PageTable) :=
  match t.lookup page with
  | none => pure (.ok, t)
  | some pte => do
    let (status, t) ← t.updateAttributes page pte.protection {} { accessed := true }
    if status ≠ .ok then pure (status, t)
    else do
      Tlb.invalidatePage i page
      Code.store (.markCold pte.frame)
      pure (.ok, t)

/-- The loop of `minimm_memory_validate_reclaimable_locked`. -/
def reclaimableBody (includeFramePins : Bool) (t : PageTable) (page : ℕ) :
    Code (Status × PageTable) :=
  match t.lookup page with
  | none => pure (.ok, t)
  | some pte => do
    let state ← Code.store (.getState pte.frame)
    pure (if pte.flags.locked || (includeFramePins && state.pinned) then .busy else .ok, t)

/-- The loop of `minimm_memory_pageout_locked`. -/
def pageoutBody (i : SpaceId) (t : PageTable) (page : ℕ) : Code (Status × PageTable) :=
  match t.lookup page with
  | none => pure (.ok, t)
  | some pte => do
    let status ← Code.store (.pageOut pte.frame)
    if status ≠ .ok then pure (status, t)
    else do
      let (_, t) ← t.updateAttributes page pte.protection {} { dirty := true }
      Tlb.invalidatePage i page
      pure (.ok, t)

/-- What an advice does to the entries of a range. -/
def madviseLocked (i : SpaceId) (r : MemoryRange) (advice : Advice) (c : Space) :
    Code (Status × Space) :=
  match advice with
  | .willneed => do
    let status ← willneedLocked c r.stop r.pageCount r.start
    pure (status, c)
  | .cold => do
    let (status, t) ← c.pageTable.walkRange r.start r.stop (coldBody i)
    pure (status, c.setTable t)
  | .dontneed => reclaimable false (dontneedBody i)
  | .pageout => reclaimable true (pageoutBody i)
  | .normal | .random | .sequential | .invalid => pure (.ok, c)
where
  /-- Nothing is done unless all of the range may go. -/
  reclaimable (includeFramePins : Bool) (body : PageTable → ℕ → Code (Status × PageTable)) :
      Code (Status × Space) := do
    let (status, _) ← c.pageTable.walkRange r.start r.stop (reclaimableBody includeFramePins)
    if status ≠ .ok then pure (status, c)
    else do
      let (status, t) ← c.pageTable.walkRange r.start r.stop body
      pure (status, c.setTable t)

/-- `minimm_madvise`. -/
def madvise (i : SpaceId) (address length : ℕ) (advice : Advice) : Code Status :=
  if advice = .invalid then pure .invalidArgument
  else if length = 0 then memoryValidateEmptyRange i address true
  else
    match memoryPrepareRange address length with
    | none => pure .invalidArgument
    | some r => withMappedRange i r id (madviseLocked i r advice)

end Space

end MiniMM
