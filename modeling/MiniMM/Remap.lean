import MiniMM.Mapping

/-!
# Remapping

`minimm_mremap` and the moves of page table entries in `mapping.c`.
-/

namespace MiniMM

/-- The flags of `minimm_mremap`. -/
structure MremapFlags where
  mayMove : Bool := false
  fixed : Bool := false
  dontUnmap : Bool := false
  other : Bool := false
  deriving DecidableEq, Repr

/-- `flags & ~PRESENT` and `~flags & ~PRESENT`: what to set and to clear to get the flags of a
present entry. -/
def PteFlags.restore (flags : PteFlags) : PteFlags × PteFlags :=
  ({ flags with present := false },
    { cow := !flags.cow, shared := !flags.shared, accessed := !flags.accessed,
      dirty := !flags.dirty, locked := !flags.locked })

/-- An entry that `minimm_mapping_move_ptes_fixed_locked` may have to restore. -/
structure SavedPage where
  address : ℕ
  pte : Pte
  rollbackPinHeld : Bool
  deriving DecidableEq, Repr

namespace Space

/-! ## Moves into free addresses -/

/-- The loop of `minimm_mapping_move_ptes_locked`. -/
def moveBody (source destination : ℕ) (t : PageTable) (page : ℕ) : Code (Status × PageTable) :=
  match t.lookup page with
  | none => pure (.ok, t)
  | some pte => t.map (destination + (page - source)) pte.frame pte.protection pte.flags

/-- `minimm_mapping_move_ptes_locked`, whose two lengths are equal in its only call. -/
def movePtesLocked (i : SpaceId) (t : PageTable) (source destination length : ℕ) :
    Code (Status × PageTable) := do
  let (status, t) ← t.walkRange source (source + length) (moveBody source destination)
  if status ≠ .ok then do
    let t ← unmapPagesLocked i t destination (destination + length)
    pure (status, t)
  else do
    Tlb.invalidateRange i destination (destination + length)
    let t ← unmapPagesLocked i t source (source + length)
    pure (.ok, t)

/-! ## Moves over another mapping -/

/-- `minimm_mapping_find_saved_page`. -/
def findSavedPage (saved : List SavedPage) (address : ℕ) : Option SavedPage :=
  (saved[Search.partitionPoint
    (fun k ↦ ((saved[k]?).map fun p ↦ decide (p.address < address)).getD false)
    saved.length]?).filter fun p ↦ decide (p.address = address)

/-- `minimm_mapping_replace_pte_locked`. -/
def replacePteLocked (t : PageTable) (address : ℕ) (source : Pte) : Code (Status × PageTable) :=
  if (t.lookup address).isNone then t.map address source.frame source.protection source.flags
  else t.replaceFrame address source.frame source.protection source.flags.restore.1
    source.flags.restore.2

/-- The first loop of `minimm_mapping_restore_fixed_destination_locked`. -/
def restoreSaved : List SavedPage → PageTable → Code PageTable
  | [], t => pure t
  | p :: rest, t => do
    let (_, t) ← replacePteLocked t p.address p.pte
    restoreSaved rest t

/-- Unmap the entries that were not there before. -/
def unmapUnsaved (saved : List SavedPage) (t : PageTable) (page : ℕ) :
    Code (Status × PageTable) :=
  if (findSavedPage saved page).isNone then PageTable.ignoring PageTable.unmap t page
  else pure (.ok, t)

/-- `minimm_mapping_restore_fixed_destination_locked`. -/
def restoreFixedDestinationLocked (i : SpaceId) (t : PageTable) (destination length : ℕ)
    (saved : List SavedPage) : Code PageTable := do
  let t ← restoreSaved saved t
  let (_, t) ← t.walkRange destination (destination + length) (unmapUnsaved saved)
  Tlb.invalidateRange i destination (destination + length)
  pure t

/-- Retain the entries in the way, and pin the frames of the locked ones. The result says whether
all pins were taken. -/
def savePages : List (ℕ × Pte) → List SavedPage → Code (Bool × List SavedPage)
  | [], saved => pure (true, saved)
  | (address, pte) :: rest, saved => do
    frameRetain pte.frame
    if pte.flags.locked then do
      let pinned ← Code.store (.tryPinResident pte.frame)
      if pinned then savePages rest (saved ++ [⟨address, pte, true⟩])
      else pure (false, saved ++ [⟨address, pte, false⟩])
    else savePages rest (saved ++ [⟨address, pte, false⟩])

/-- The label `done` of `minimm_mapping_move_ptes_fixed_locked`. -/
def releaseSaved : List SavedPage → Code Unit
  | [] => pure ()
  | p :: rest => do
    Code.when p.rollbackPinHeld (Code.store (.unpinResident p.pte.frame))
    frameRelease p.pte.frame
    releaseSaved rest

/-- Put the entry of a source page at its destination. -/
def replaceBody (source destination : ℕ) (t : PageTable) (page : ℕ) : Code (Status × PageTable) :=
  match t.lookup page with
  | none => pure (.ok, t)
  | some pte => replacePteLocked t (destination + (page - source)) pte

/-- Unmap a destination page whose source is a hole or beyond what is moved. -/
def unmapHole (source destination moveLength : ℕ) (t : PageTable) (page : ℕ) :
    Code (Status × PageTable) :=
  if page - destination < moveLength ∧
      (t.lookup (source + (page - destination))).isSome = true then pure (.ok, t)
  else PageTable.ignoring PageTable.unmap t page

/-- `minimm_mapping_move_ptes_fixed_locked` between its saves and its releases. -/
def moveSavedLocked (i : SpaceId) (t : PageTable) (source sourceLength destination length : ℕ)
    (saved : List SavedPage) : Code (Status × PageTable) := do
  let moveLength := min sourceLength length
  let (status, t) ← t.walkRange source (source + moveLength) (replaceBody source destination)
  if status ≠ .ok then do
    let t ← restoreFixedDestinationLocked i t destination length saved
    pure (status, t)
  else do
    let (_, t) ← t.walkRange destination (destination + length)
      (unmapHole source destination moveLength)
    Tlb.invalidateRange i destination (destination + length)
    let t ← unmapPagesLocked i t source (source + sourceLength)
    pure (.ok, t)

/-- `minimm_mapping_move_ptes_fixed_locked`. -/
def movePtesFixedLocked (i : SpaceId) (t : PageTable)
    (source sourceLength destination length : ℕ) : Code (Status × PageTable) := do
  let (status, pages) ← collectCopyPages t destination (destination + length)
  if status ≠ .ok then pure (status, t)
  else do
    let (pinned, saved) ← savePages pages []
    let (status, t) ← (if pinned then
        moveSavedLocked i t source sourceLength destination length saved
      else pure (.busy, t))
    releaseSaved saved
    pure (status, t)

/-! ## The call -/

/-- The result of `minimm_mremap` under the lock: status, address and the bindings to destroy. -/
abbrev RemapResult := Status × ℕ × List Binding

/-- Insert into a snapshot, if making that succeeded. -/
def insertInto (status : Status) (base : Option VmaSnapshot) (v : Vma) :
    Code (Status × Option VmaSnapshot) :=
  match base with
  | none => pure (status, none)
  | some base => base.insert v

/-- Grow or shrink in place; `none` tells the caller to move the mapping. -/
def mremapInPlace (i : SpaceId) (c : Space) (mapping : Vma) (newSize : ℕ) :
    Code (Option RemapResult × Space) :=
  if newSize = mapping.stop - mapping.start then pure (some (.ok, mapping.start, []), c)
  else if newSize < mapping.stop - mapping.start then do
    let (status, next) ← c.vmaSnapshot.remove (mapping.start + newSize) mapping.stop
    match next with
    | none => pure (some (status, addressAuto, []), c)
    | some next => do
      let t ← unmapPagesLocked i c.pageTable (mapping.start + newSize) mapping.stop
      let c ← (c.setTable t).publishLocked next
      pure (some (.ok, mapping.start, []), c)
  else if newSize ≤ userAddressLimit - mapping.start then do
    let (status, without) ← c.vmaSnapshot.remove mapping.start mapping.stop
    let (status, next) ← insertInto status without { mapping with stop := mapping.start + newSize }
    match next with
    | some next => do
      let c ← c.publishLocked next
      pure (some (.ok, mapping.start, []), c)
    | none => pure (if status ≠ .addressInUse then some (status, addressAuto, []) else none, c)
  else pure (none, c)

/-- The snapshot of a mapping that is moved: the old range is removed unless it is kept, and so is
what was at a fixed destination. -/
def mremapSnapshot (c : Space) (mapping replacement : Vma) (flags : MremapFlags) :
    Code (Status × Option VmaSnapshot) := do
  let (status, base) ← (if flags.dontUnmap then pure (.ok, some c.vmaSnapshot)
    else c.vmaSnapshot.remove mapping.start mapping.stop)
  match base with
  | none => pure (status, none)
  | some base =>
    if flags.fixed then replaceRange base replacement else base.insert replacement

/-- Move the mapping, its snapshot being made. -/
def mremapCommit (i : SpaceId) (c : Space) (mapping replacement : Vma) (flags : MremapFlags)
    (b : BackingId) (next : VmaSnapshot) : Code (RemapResult × Space) := do
  let (status, t) ← (if flags.fixed then
      movePtesFixedLocked i c.pageTable mapping.start (mapping.stop - mapping.start)
        replacement.start (replacement.stop - replacement.start)
    else
      movePtesLocked i c.pageTable mapping.start replacement.start (mapping.stop - mapping.start))
  if status ≠ .ok then
    pure ((status, addressAuto, if flags.dontUnmap then [⟨b, 0⟩] else []), c.setTable t)
  else do
    let c := c.setTable t
    let c := if flags.dontUnmap then
        { c with
          bindings := ⟨b, c.nextMappingCookie⟩ :: c.bindings
          nextMappingCookie := c.nextMappingCookie + 1 }
      else c
    let c ← c.publishLocked next
    let (kept, removed) := Binding.prune c.bindings c.vmaSnapshot
    pure ((.ok, replacement.start, removed), { c with bindings := kept })

/-- The move of a mapping to `destination`. -/
def mremapMove (i : SpaceId) (c : Space) (mapping : Vma) (newSize destination : ℕ)
    (flags : MremapFlags) (b : BackingId) : Code (RemapResult × Space) :=
  if flags.dontUnmap = true ∧ c.nextMappingCookie = sizeMax then
    pure ((.noSpace, addressAuto, []), c)
  else do
    let replacement : Vma :=
      { mapping with
        start := destination
        stop := destination + newSize
        mappingCookie := if flags.dontUnmap then c.nextMappingCookie else mapping.mappingCookie }
    let (status, next) ← c.mremapSnapshot mapping replacement flags
    match next with
    | none => pure ((status, addressAuto, []), c)
    | some next => do
      let status ← (if flags.dontUnmap then Binding.create else pure .ok)
      if status ≠ .ok then pure ((status, addressAuto, []), c)
      else do
        Code.when flags.dontUnmap (Backing.retain b)
        mremapCommit i c mapping replacement flags b next

/-- The size checks of `minimm_mremap` against the note of the mapping. -/
def mremapFits (info : BackingInfo) (mapping : Vma) (newSize : ℕ) : Code Bool :=
  match info.note with
  | none => pure true
  | some n => do
    let size ← Note.loadSize n
    pure (decide (mapping.noteOffset ≤ size) && decide (newSize ≤ size - mapping.noteOffset))

/-- `minimm_mremap` under the lock, for an existing mapping. -/
def mremapMapping (i : SpaceId) (c : Space) (mapping : Vma) (newSize hint : ℕ)
    (flags : MremapFlags) (b : BackingId) : Code (RemapResult × Space) := do
  let info ← Backing.info b
  if flags.dontUnmap = true ∧ (newSize ≠ mapping.stop - mapping.start ∨ mapping.shared = true ∨
      info.kind ≠ .anonPrivate) then pure ((.unsupported, addressAuto, []), c)
  else do
    let fits ← mremapFits info mapping newSize
    if fits = false then pure ((.invalidArgument, addressAuto, []), c)
    else if flags.fixed then mremapMove i c mapping newSize hint flags b
    else do
      let (result, c) ← (if flags.dontUnmap then pure (none, c)
        else mremapInPlace i c mapping newSize)
      match result with
      | some result => pure (result, c)
      | none =>
        if flags.mayMove = false then
          pure ((if newSize ≤ userAddressLimit - mapping.start then .addressInUse else .noSpace,
            addressAuto, []), c)
        else
          let found := c.vmaSnapshot.findGap c.mmapBase userAddressLimit newSize
          if found.1 ≠ .ok then pure ((found.1, addressAuto, []), c)
          else mremapMove i c mapping newSize found.2 flags b

/-- `minimm_mremap` under the lock. -/
def mremapLocked (i : SpaceId) (oldAddress oldSize newSize : ℕ) (flags : MremapFlags) (hint : ℕ)
    (c : Space) : Code (RemapResult × Space) :=
  match c.vmaSnapshot.lookup oldAddress with
  | none => pure ((.unsupported, addressAuto, []), c)
  | some mapping =>
    if mapping.start ≠ oldAddress ∨ mapping.stop ≠ oldAddress + oldSize then
      pure ((.unsupported, addressAuto, []), c)
    else
      match Binding.find mapping.mappingCookie c.bindings with
      | none => pure ((.notFound, addressAuto, []), c)
      | some binding => mremapMapping i c mapping newSize hint flags binding.backing

/-- The checks of `minimm_mremap` on its addresses and sizes. -/
def mremapRangesAreValid (oldAddress oldSize newSize : ℕ) (fixed : Bool) (hint : ℕ) : Bool :=
  mappingRangeIsValid oldAddress oldSize &&
    (!fixed || (decide (hint ≠ addressAuto) && mappingRangeIsValid hint newSize &&
      !(decide (hint < oldAddress + oldSize) && decide (oldAddress < hint + newSize))))

/-- `minimm_mremap`. -/
def mremap (i : SpaceId) (oldAddress oldLength newLength : ℕ) (flags : MremapFlags) (hint : ℕ) :
    Code (Status × ℕ) :=
  if flags.other = true ∨ (flags.fixed = true ∧ flags.mayMove = false) ∨
      (flags.fixed = false ∧ hint ≠ addressAuto) ∨
      (flags.dontUnmap = true ∧ flags.mayMove = false) then pure (.invalidArgument, addressAuto)
  else if oldLength = 0 then pure (.unsupported, addressAuto)
  else
    match mappingAlignLength oldLength, mappingAlignLength newLength with
    | some oldSize, some newSize =>
      if mremapRangesAreValid oldAddress oldSize newSize flags.fixed hint = false then
        pure (.invalidArgument, addressAuto)
      else do
        let (status, address, removed) ← withLock i (.busy, addressAuto, [])
          (mremapLocked i oldAddress oldSize newSize flags hint)
        Binding.listDestroy removed
        pure (status, address)
    | _, _ => pure (.invalidArgument, addressAuto)

end Space

end MiniMM
