import MiniMM.Fault

/-!
# Mappings

The first part of `mapping.c`: making, copying, removing and protecting mappings, and the growth of
the heap.
-/

namespace MiniMM

/-- `MINIMM_MMAP_MIN_ADDRESS`. -/
def mmapMinAddress : ℕ := 0x10000

/-- `minimm_mmap_args_t`. -/
structure MmapArgs where
  addressHint : ℕ
  length : ℕ
  noteOffset : ℕ
  protection : Prot
  maximumProtection : Prot
  flags : MapFlags
  note : Option NoteId
  deriving DecidableEq, Repr

namespace PageTable

/-- The loops over the entries of an interval: find the next entry, treat it, go on behind it. A
body that fails ends the loop. -/
def walk (body : PageTable → ℕ → Code (Status × PageTable)) :
    ℕ → PageTable → ℕ → ℕ → Code (Status × PageTable)
  | 0, t, _, _ => pure (.ok, t)
  | fuel + 1, t, cursor, stop =>
    match t.findNext cursor stop with
    | .error _ => pure (.ok, t)
    | .ok page => do
      let (status, t) ← body t page
      if status ≠ .ok then pure (status, t) else walk body fuel t (page + pageSize) stop

/-- No more rounds than there are pages. -/
def walkRange (t : PageTable) (start stop : ℕ)
    (body : PageTable → ℕ → Code (Status × PageTable)) : Code (Status × PageTable) :=
  walk body ((stop - start) / pageSize) t start stop

/-- A body whose status the source drops. -/
def ignoring (body : PageTable → ℕ → Code (Status × PageTable)) (t : PageTable) (page : ℕ) :
    Code (Status × PageTable) := do
  let (_, t) ← body t page
  pure (.ok, t)

end PageTable

namespace Space

/-! ## Arguments -/

/-- `minimm_mapping_flags_are_valid`. -/
def mappingFlagsAreValid (flags : MapFlags) : Bool :=
  !flags.other && (flags.shared != flags.private)

/-- `minimm_mapping_validate_backing`. -/
def mappingValidateBacking (args : MmapArgs) (length : ℕ) (maximum : Prot) : Code Status :=
  if args.flags.anonymous then
    pure (if args.note = none ∧ args.noteOffset = 0 then .ok else .invalidArgument)
  else
    match args.note with
    | none => pure .invalidArgument
    | some n =>
      if args.noteOffset % pageSize ≠ 0 then pure .invalidArgument
      else do
        let i ← Note.info n
        if i.rights.read = false ∨ (args.flags.shared = true ∧ i.rights.share = false) ∨
            (args.flags.shared = true ∧ maximum.write = true ∧ i.rights.write = false) ∨
            (maximum.edit = true ∧ i.rights.edit = false) then pure .permission
        else do
          let size ← Note.loadSize n
          pure (if args.noteOffset > size ∨ length > size - args.noteOffset then .invalidArgument
            else .ok)

/-- The rights that `minimm_note_rights` reports, none for a null note. -/
def rightsOf : Option NoteId → Code NoteRights
  | none => pure {}
  | some n => do
    let i ← Note.info n
    pure i.rights

/-- `minimm_mapping_default_maximum_protection`. -/
def mappingDefaultMaximumProtection (args : MmapArgs) (rights : NoteRights) : Prot :=
  let edit := args.flags.anonymous || rights.edit
  let maximum : Prot :=
    { read := true
      write := args.flags.anonymous || args.flags.private || rights.write || edit
      edit := edit
      exec := true }
  maximum.union args.protection

/-- `minimm_mapping_align_length`. -/
def mappingAlignLength (length : ℕ) : Option ℕ :=
  if length = 0 ∨ length > sizeMax - (pageSize - 1) then none
  else
    let aligned := (length + (pageSize - 1)) / pageSize * pageSize
    if aligned = 0 ∨ aligned > userAddressLimit then none else some aligned

theorem mappingAlignLength_pos {length size : ℕ} (h : mappingAlignLength length = some size) :
    0 < size := by
  simp only [mappingAlignLength] at h
  split_ifs at h with h1 h2
  cases h
  omega

/-- `minimm_mapping_range_is_valid`; the end of the range is `start + length`. -/
def mappingRangeIsValid (start length : ℕ) : Bool :=
  decide (mmapMinAddress ≤ start) && decide (start % pageSize = 0) &&
    decide (start < userAddressLimit) && decide (length ≤ userAddressLimit - start)

/-- `minimm_mapping_operation_range_is_valid`. -/
def mappingOperationRangeIsValid (start length : ℕ) : Bool :=
  decide (start % pageSize = 0) && decide (start < userAddressLimit) &&
    decide (length ≤ userAddressLimit - start)

/-- `minimm_mapping_make_vma`. -/
def mappingMakeVma (args : MmapArgs) (start stop : ℕ) (maximum : Prot) (cookie : ℕ) : Vma where
  start := start
  stop := stop
  mappingCookie := cookie
  noteOffset := args.noteOffset
  prot := args.protection
  maxProt := maximum
  shared := args.flags.shared

/-! ## Placement -/

/-- The searches for a gap: above a hint, and then from the base. -/
def findGapAbove (c : Space) (lower length : ℕ) : Status × ℕ :=
  let found := c.vmaSnapshot.findGap lower userAddressLimit length
  if found.1 = .noSpace ∧ lower ≠ c.mmapBase then
    c.vmaSnapshot.findGap c.mmapBase userAddressLimit length
  else found

/-- The snapshot in which `[v.start, v.stop)` has been replaced by `v`. -/
def replaceRange (s : VmaSnapshot) (v : Vma) : Code (Status × Option VmaSnapshot) := do
  let (status, without) ← s.remove v.start v.stop
  match without with
  | none => pure (status, none)
  | some without => without.insert v

/-- Place a mapping where there is a gap. -/
def placeInGap (c : Space) (lower length : ℕ) (vmaAt : ℕ → Vma) :
    Code (Status × ℕ × Option VmaSnapshot) :=
  let found := c.findGapAbove lower length
  if found.1 ≠ .ok then pure (found.1, addressAuto, none)
  else do
    let (status, next) ← c.vmaSnapshot.insert (vmaAt found.2)
    pure (status, found.2, next)

/-- Place a mapping at its hint, or else in a gap. -/
def placeNear (c : Space) (hint length : ℕ) (vmaAt : ℕ → Vma) :
    Code (Status × ℕ × Option VmaSnapshot) := do
  let (status, next) ← c.vmaSnapshot.insert (vmaAt hint)
  if status = .addressInUse then c.placeInGap (max c.mmapBase hint) length vmaAt
  else pure (status, hint, next)

/-- The part of `minimm_mmap` that finds the address and makes the snapshot. -/
def mmapPlace (c : Space) (args : MmapArgs) (length : ℕ) (maximum : Prot) :
    Code (Status × ℕ × Option VmaSnapshot) :=
  let vmaAt := fun address ↦
    mappingMakeVma args address (address + length) maximum c.nextMappingCookie
  if args.flags.fixed || args.flags.fixedNoreplace then
    if args.addressHint = addressAuto ∨ mappingRangeIsValid args.addressHint length = false then
      pure (.invalidArgument, addressAuto, none)
    else do
      let (status, next) ← (if args.flags.fixedNoreplace then
          c.vmaSnapshot.insert (vmaAt args.addressHint)
        else replaceRange c.vmaSnapshot (vmaAt args.addressHint))
      pure (status, args.addressHint, next)
  else if args.addressHint ≠ addressAuto ∧ mappingRangeIsValid args.addressHint length = true then
    c.placeNear args.addressHint length vmaAt
  else c.placeInGap c.mmapBase length vmaAt

/-! ## Mapping -/

/-- `minimm_mapping_unmap_pages_locked`. -/
def unmapPagesLocked (i : SpaceId) (t : PageTable) (start stop : ℕ) : Code PageTable := do
  Tlb.invalidateRange i start stop
  let (_, t) ← t.walkRange start stop (PageTable.ignoring PageTable.unmap)
  pure t

/-- The loop of `MAP_POPULATE`, which a page that fails ends. -/
def populateRange : ℕ → Space → ℕ → Code Space
  | 0, c, _ => pure c
  | pages + 1, c, page => do
    let (status, c) ← c.populatePageLocked page
    if status ≠ .ok then pure c else populateRange pages c (page + pageSize)

/-- `minimm_mmap` under the lock: the bindings to destroy come last. -/
def mmapLocked (i : SpaceId) (args : MmapArgs) (length : ℕ) (maximum : Prot) (b : BackingId)
    (c : Space) : Code ((Status × ℕ × List Binding) × Space) :=
  if c.nextMappingCookie = sizeMax then pure ((.noSpace, addressAuto, [⟨b, 0⟩]), c)
  else do
    let (status, address, next) ← c.mmapPlace args length maximum
    match next with
    | none => pure ((status, addressAuto, [⟨b, 0⟩]), c)
    | some next => do
      let t ← (if args.flags.fixed && !args.flags.fixedNoreplace then
          unmapPagesLocked i c.pageTable address (address + length)
        else pure c.pageTable)
      let c := { c.setTable t with bindings := ⟨b, c.nextMappingCookie⟩ :: c.bindings }
      let c ← c.publishLocked next
      let (kept, removed) := Binding.prune c.bindings c.vmaSnapshot
      let c := { c with bindings := kept }
      let c ← (if args.flags.populate && args.protection ≠ .none then
          populateRange (length / pageSize) c address
        else pure c)
      pure ((.ok, address, removed), { c with nextMappingCookie := c.nextMappingCookie + 1 })

/-- `minimm_mmap` after the checks of its arguments. -/
def mmapChecked (i : SpaceId) (args : MmapArgs) (length : ℕ) (maximum : Prot) :
    Code (Status × ℕ) := do
  let (status, b) ← Backing.create args.note args.flags
  if status ≠ .ok then pure (status, addressAuto)
  else do
    let status ← mappingValidateBacking args length maximum
    let status ← (if status = .ok then Binding.create else pure status)
    if status ≠ .ok then do
      Backing.release b
      pure (status, addressAuto)
    else do
      let (status, address, removed) ← withLock i (.busy, addressAuto, [⟨b, 0⟩])
        (mmapLocked i args length maximum b)
      Binding.listDestroy removed
      pure (status, address)

/-- `minimm_mmap`. -/
def mmap (i : SpaceId) (args : MmapArgs) : Code (Status × ℕ) :=
  if mappingFlagsAreValid args.flags = false ∨ args.protection.isValid = false then
    pure (.invalidArgument, addressAuto)
  else do
    let rights ← rightsOf args.note
    let maximum :=
      if args.maximumProtection = .none then mappingDefaultMaximumProtection args rights
      else args.maximumProtection
    if maximum.isValid = false ∨ args.protection.within maximum = false then
      pure (.invalidArgument, addressAuto)
    else
      match mappingAlignLength args.length with
      | none => pure (.invalidArgument, addressAuto)
      | some length => mmapChecked i args length maximum

/-- `minimm_mapping_info_t`. -/
structure MappingInfo where
  start : ℕ
  stop : ℕ
  mappingCookie : ℕ
  noteOffset : ℕ
  protection : Prot
  maximumProtection : Prot
  shared : Bool
  deriving DecidableEq, Repr

/-- The fields that `minimm_mapping_query` copies. -/
def mappingInfo (v : Vma) : MappingInfo where
  start := v.start
  stop := v.stop
  mappingCookie := v.mappingCookie
  noteOffset := v.noteOffset
  protection := v.prot
  maximumProtection := v.maxProt
  shared := v.shared

/-- `minimm_mapping_query`. The source reads the snapshot in a section of the space's RCU domain,
here it is read under the lock. -/
def mappingQuery (i : SpaceId) (address : ℕ) : Code (Status × Option MappingInfo) :=
  if address ≥ userAddressLimit then pure (.invalidArgument, none)
  else
    withLock i (.busy, none) fun c ↦
      match c.vmaSnapshot.lookup address with
      | none => pure ((.notFound, none), c)
      | some v => pure ((.ok, some (mappingInfo v)), c)

/-! ## Copies -/

/-- The size of `minimm_mapping_copy_page_t`. -/
def copyPageSize : ℕ := 32

/-- `minimm_mapping_collect_copy_pages_locked`: addresses and entries. -/
def collectCopyPages (t : PageTable) (start stop : ℕ) : Code (Status × List (ℕ × Pte)) :=
  let pages := (t.entries.map fun e ↦ (e.1 * pageSize, e.2)).filter fun e ↦
    decide (start ≤ e.1) && decide (e.1 < stop)
  if pages.isEmpty then pure (.ok, [])
  else if pages.length > sizeMax / copyPageSize then pure (.noSpace, [])
  else do
    let allocated ← Code.malloc
    pure (if allocated then (.ok, pages) else (.outOfMemory, []))

/-- `minimm_mapping_unmap_copy_pages_locked`. -/
def unmapCopyPages (source destination : ℕ) : List (ℕ × Pte) → PageTable → Code PageTable
  | [], t => pure t
  | (address, _) :: rest, t =>
    if (t.lookup (destination + (address - source))).isSome then do
      let (_, t) ← t.unmap (destination + (address - source))
      unmapCopyPages source destination rest t
    else unmapCopyPages source destination rest t

/-- The flags of a copied entry. -/
def copyFlags (copyOnWrite : Bool) (flags : PteFlags) : PteFlags :=
  { flags with shared := false, locked := false, accessed := false, dirty := false
               cow := copyOnWrite }

/-- `minimm_mapping_copy_ptes_locked`, with the pages already copied. -/
def copyPtesLocked (source destination : ℕ) (copyOnWrite : Bool) :
    List (ℕ × Pte) → List (ℕ × Pte) → PageTable → Code (Status × PageTable)
  | [], _, t => pure (.ok, t)
  | (address, pte) :: rest, done, t => do
    let (status, t) ← t.map (destination + (address - source)) pte.frame pte.protection
      (copyFlags copyOnWrite pte.flags)
    if status ≠ .ok then do
      let t ← unmapCopyPages source destination done t
      pure (status, t)
    else copyPtesLocked source destination copyOnWrite rest (done ++ [(address, pte)]) t

/-- The rollback of `minimm_mapping_update_source_copy_state_locked`, last page first. -/
def restoreSourceState : List (ℕ × Pte) → PageTable → Code PageTable
  | [], t => pure t
  | (address, pte) :: rest, t => do
    let (_, t) ← t.updateAttributes address pte.protection
      { cow := pte.flags.cow, shared := pte.flags.shared }
      { cow := !pte.flags.cow, shared := !pte.flags.shared }
    restoreSourceState rest t

/-- `minimm_mapping_update_source_copy_state_locked`; the updated pages are kept in reverse. -/
def updateSourceState (copyOnWrite : Bool) :
    List (ℕ × Pte) → List (ℕ × Pte) → PageTable → Code (Status × PageTable)
  | [], _, t => pure (.ok, t)
  | (address, pte) :: rest, done, t => do
    let (status, t) ← t.updateAttributes address pte.protection { cow := copyOnWrite }
      { shared := true, cow := !copyOnWrite }
    if status ≠ .ok then do
      let t ← restoreSourceState done t
      pure (status, t)
    else updateSourceState copyOnWrite rest ((address, pte) :: done) t

/-- The entries of `minimm_mapping_copy`. -/
def copyEntries (i : SpaceId) (t : PageTable) (source destination length : ℕ)
    (copyOnWrite : Bool) (pages : List (ℕ × Pte)) : Code (Status × PageTable) := do
  let (status, t) ← copyPtesLocked source destination copyOnWrite pages [] t
  if status ≠ .ok then pure (status, t)
  else do
    let (status, t) ← updateSourceState copyOnWrite pages [] t
    if status ≠ .ok then do
      let t ← unmapCopyPages source destination pages t
      pure (status, t)
    else do
      Tlb.invalidateRange i source (source + length)
      Tlb.invalidateRange i destination (destination + length)
      pure (.ok, t)

/-- `minimm_mapping_copy` once the source mapping and its backing are known. -/
def mappingCopyFrom (i : SpaceId) (c : Space) (source length hint : ℕ) (mapping : Vma)
    (b : BackingId) : Code ((Status × ℕ × List Binding) × Space) := do
  let (status, pages) ← collectCopyPages c.pageTable source (source + length)
  if status ≠ .ok then pure ((status, addressAuto, []), c)
  else do
    let vmaAt := fun address ↦
      { mapping with
        start := address
        stop := address + length
        mappingCookie := c.nextMappingCookie }
    let (status, destination, next) ← (if hint ≠ addressAuto then c.placeNear hint length vmaAt
      else c.placeInGap c.mmapBase length vmaAt)
    match next with
    | none => pure ((status, addressAuto, []), c)
    | some next => do
      let status ← Binding.create
      if status ≠ .ok then pure ((status, addressAuto, []), c)
      else do
        Backing.retain b
        let (status, t) ← copyEntries i c.pageTable source destination length
          mapping.maxProt.writable pages
        if status ≠ .ok then pure ((status, addressAuto, [⟨b, 0⟩]), c.setTable t)
        else do
          let c := { c.setTable t with bindings := ⟨b, c.nextMappingCookie⟩ :: c.bindings }
          let c ← c.publishLocked next
          pure ((.ok, destination, []), { c with nextMappingCookie := c.nextMappingCookie + 1 })

/-- `minimm_mapping_copy` under the lock. -/
def mappingCopyLocked (i : SpaceId) (source length hint : ℕ) (c : Space) :
    Code ((Status × ℕ × List Binding) × Space) :=
  if c.nextMappingCookie = sizeMax then pure ((.noSpace, addressAuto, []), c)
  else
    match c.vmaSnapshot.lookup source with
    | none => pure ((.unsupported, addressAuto, []), c)
    | some mapping =>
      if mapping.start ≠ source ∨ mapping.stop ≠ source + length ∨ mapping.shared = true then
        pure ((.unsupported, addressAuto, []), c)
      else
        match Binding.find mapping.mappingCookie c.bindings with
        | none => pure ((.notFound, addressAuto, []), c)
        | some binding => mappingCopyFrom i c source length hint mapping binding.backing

/-- `minimm_mapping_copy`. -/
def mappingCopy (i : SpaceId) (source length hint : ℕ) : Code (Status × ℕ) :=
  match mappingAlignLength length with
  | none => pure (.invalidArgument, addressAuto)
  | some length =>
    if mappingRangeIsValid source length = false ∨
        (hint ≠ addressAuto ∧ mappingRangeIsValid hint length = false) then
      pure (.invalidArgument, addressAuto)
    else do
      let (status, address, removed) ← withLock i (.busy, addressAuto, [])
        (mappingCopyLocked i source length hint)
      Binding.listDestroy removed
      pure (status, address)

/-! ## Unmapping and protection -/

/-- `minimm_munmap` under the lock. -/
def munmapLocked (i : SpaceId) (start stop : ℕ) (c : Space) :
    Code ((Status × List Binding) × Space) := do
  let (status, next) ← c.vmaSnapshot.remove start stop
  match next with
  | none => pure ((status, []), c)
  | some next => do
    let t ← unmapPagesLocked i c.pageTable start stop
    let c ← (c.setTable t).publishLocked next
    let (kept, removed) := Binding.prune c.bindings c.vmaSnapshot
    pure ((.ok, removed), { c with bindings := kept })

/-- `minimm_munmap`. -/
def munmap (i : SpaceId) (address length : ℕ) : Code Status :=
  match mappingAlignLength length with
  | none => pure .invalidArgument
  | some length =>
    if mappingOperationRangeIsValid address length = false then pure .invalidArgument
    else do
      let (status, removed) ← withLock i (.busy, []) (munmapLocked i address (address + length))
      Binding.listDestroy removed
      pure status

/-- `minimm_mprotect` under the lock. -/
def mprotectLocked (i : SpaceId) (start stop : ℕ) (protection : Prot) (c : Space) :
    Code (Status × Space) := do
  let (status, next) ← c.vmaSnapshot.protect start stop protection
  match next with
  | none => pure (status, c)
  | some next => do
    let (_, t) ← c.pageTable.walkRange start stop
      (PageTable.ignoring fun t page ↦ t.protect page protection)
    Tlb.invalidateRange i start stop
    let c ← (c.setTable t).publishLocked next
    pure (.ok, c)

/-- The answer of the calls for an empty range that is valid. -/
def emptyRangeStatus (i : SpaceId) : Code Status := do
  let closing ← .step (.closing i)
  pure (if closing then .busy else .ok)

/-- `minimm_mprotect`. -/
def mprotect (i : SpaceId) (address length : ℕ) (protection : Prot) : Code Status :=
  if protection.isValid = false then pure .invalidArgument
  else if length = 0 then
    if address ≥ userAddressLimit ∨ address % pageSize ≠ 0 then pure .invalidArgument
    else emptyRangeStatus i
  else
    match mappingAlignLength length with
    | none => pure .invalidArgument
    | some length =>
      if mappingOperationRangeIsValid address length = false then pure .invalidArgument
      else withLock i .busy (mprotectLocked i address (address + length) protection)

/-! ## The heap -/

/-- The check of `minimm_mapping_extend_heap` that `[cursor, start)` is of one mapping. -/
def heapIsContinuous (s : VmaSnapshot) (cookie start : ℕ) : ℕ → ℕ → Bool
  | 0, cursor => decide (start ≤ cursor)
  | fuel + 1, cursor =>
    if cursor < start then
      match s.findNext cursor with
      | none => false
      | some fragment =>
        if fragment.start > cursor ∨ fragment.mappingCookie ≠ cookie then false
        else heapIsContinuous s cookie start fuel (min fragment.stop start)
    else true

/-- The range that `minimm_mapping_extend_heap` adds. -/
def heapExtension (tail : Vma) (start stop : ℕ) : Vma where
  start := start
  stop := stop
  mappingCookie := tail.mappingCookie
  noteOffset := (tail.noteOffset + (tail.stop - tail.start)) % 2 ^ 64
  prot := { read := true, write := true }
  maxProt := { read := true, write := true, edit := true }
  shared := false

/-- `minimm_mapping_extend_heap` under the lock. -/
def extendHeapLocked (base start stop : ℕ) (c : Space) : Code (Status × Space) :=
  match c.vmaSnapshot.lookup (start - 1) with
  | none => pure (.unsupported, c)
  | some tail =>
    if tail.stop ≠ start ∨ tail.shared = true then pure (.unsupported, c)
    else if heapIsContinuous c.vmaSnapshot tail.mappingCookie start ((start - base) / pageSize)
        base = false then pure (.unsupported, c)
    else
      match Binding.find tail.mappingCookie c.bindings with
      | none => pure (.unsupported, c)
      | some binding => do
        let i ← Backing.info binding.backing
        if i.kind ≠ .anonPrivate then pure (.unsupported, c)
        else do
          let (status, next) ← c.vmaSnapshot.insert (heapExtension tail start stop)
          match next with
          | none => pure (status, c)
          | some next => do
            let c ← c.publishLocked next
            pure (.ok, c)

/-- `minimm_mapping_extend_heap`; the caller holds the lock of the break. -/
def extendHeap (i : SpaceId) (base start stop : ℕ) : Code Status :=
  if start < mmapMinAddress ∨ start ≥ stop ∨ stop > userAddressLimit ∨ start % pageSize ≠ 0 ∨
      stop % pageSize ≠ 0 then pure .invalidArgument
  else withLock i .busy (extendHeapLocked base start stop)

end Space

end MiniMM
