import MiniMM.Space

/-!
# Page faults

`fault.c`.
-/

namespace MiniMM

namespace Space

/-- The start of the page of an address. -/
def pageOf (address : ℕ) : ℕ := address - address % pageSize

/-- `minimm_fault_begin`. -/
def faultBegin (c : Space) (address : ℕ) (access : Access) (origin : FaultOrigin) :
    FaultInfo × Space :=
  let sequence := if c.faultSequence = sizeMax then 1 else c.faultSequence + 1
  ({ sequence := sequence, address := address, pageAddress := pageOf address, access := access,
     origin := origin },
    { c with faultSequence := sequence })

/-- `minimm_fault_fail`. -/
def faultFail (fault : FaultInfo) (reason : FaultReason) (status : Status) : FaultInfo :=
  { fault with
    reason := reason
    resolution := if reason = .permission ∨ reason = .unmapped then .denied else .unresolved
    status := status }

/-- The reason recorded when a frame cannot be had. -/
def frameFailure (status : Status) : FaultReason := if status = .io then .backingIo else .noFrame

/-- `minimm_fault_trace_append_locked`. -/
def faultTraceAppend (c : Space) (fault : FaultInfo) : Space :=
  if c.faultTraceCount < faultTraceCapacity then
    { c with
      faultTrace := Function.update c.faultTrace
        ((c.faultTraceStart + c.faultTraceCount) % faultTraceCapacity) (some fault)
      faultTraceCount := c.faultTraceCount + 1 }
  else
    { c with
      faultTrace := Function.update c.faultTrace c.faultTraceStart (some fault)
      faultTraceStart := (c.faultTraceStart + 1) % faultTraceCapacity
      faultTraceOverwrittenCount :=
        if c.faultTraceOverwrittenCount ≠ sizeMax then c.faultTraceOverwrittenCount + 1
        else c.faultTraceOverwrittenCount }

/-- The offset in its backing of a page of a mapping. -/
def backingOffset (v : Vma) (page : ℕ) : ℕ := v.noteOffset + (page - v.start)

/-- The sharing flags of a new entry; a private page of a note that was not copied is copied on
the first write. -/
def sharingFlags (kind : BackingKind) (maxProt : Prot) (copied : Bool) (flags : PteFlags) :
    PteFlags :=
  if kind.shared then { flags with shared := true }
  else if kind = .notePrivate ∧ maxProt.writable = true ∧ copied = false then
    { flags with cow := true }
  else flags

/-- Get a frame of a backing and make it resident. -/
def residentFrame (b : BackingId) (offset : ℕ) : Code (Status × FrameId × Bool) := do
  let (status, f, created) ← Backing.getFrame b offset
  if status ≠ .ok then pure (status, 0, created)
  else do
    let (status, _) ← frameEnsureResident f
    if status ≠ .ok then do
      frameRelease f
      pure (status, 0, created)
    else pure (.ok, f, created)

/-- `minimm_populate_page_locked`. -/
def populatePageLocked (c : Space) (address : ℕ) : Code (Status × Space) :=
  if address ≥ userAddressLimit then pure (.invalidArgument, c)
  else
    match c.vmaSnapshot.lookup address with
    | none => pure (.notFound, c)
    | some mapping =>
      match Binding.find mapping.mappingCookie c.bindings with
      | none => pure (.notFound, c)
      | some binding =>
        match c.pteAt address with
        | some pte => do
          let (status, _) ← frameEnsureResident pte.frame
          pure (status, c)
        | none => do
          let i ← Backing.info binding.backing
          let (status, f, _) ← residentFrame binding.backing (backingOffset mapping
            (pageOf address))
          if status ≠ .ok then pure (status, c)
          else do
            let (status, t) ← c.pageTable.map (pageOf address) f mapping.prot
              (sharingFlags i.kind mapping.maxProt false {})
            frameRelease f
            pure (status, c.setTable t)

/-- The flags that an access sets. -/
def accessFlags (access : Access) : PteFlags :=
  { accessed := true, dirty := decide (access = .write ∨ access = .edit) }

/-- The frame for a page that has no entry: a page of the backing, or a copy of it when a private
page of a note is first touched by a write. -/
def faultFrame (b : BackingId) (kind : BackingKind) (offset : ℕ) (write : Bool) :
    Code (Status × FrameId × Bool) :=
  if kind = .notePrivate ∧ write = true then do
    let (status, f, created) ← Backing.getFrame b offset
    if status ≠ .ok then pure (status, 0, created)
    else do
      let (status, copy) ← frameCopy f
      frameRelease f
      pure (status, copy, created)
  else residentFrame b offset

/-- How a fault on a page without an entry is resolved. -/
def missingResolution (kind : BackingKind) (created copied : Bool) :
    FaultReason × FaultResolution :=
  if copied then (.cow, .cowCopied)
  else
    (.notPresent,
      if kind = .anonPrivate ∨ (kind = .anonShared ∧ created = true) then .zeroFilled else .pageIn)

/-- The fault on a page that has no entry. -/
def faultMissing (t : PageTable) (mapping : Vma) (b : BackingId) (kind : BackingKind)
    (fault : FaultInfo) : Code (Status × PageTable × FaultInfo) := do
  let flags := accessFlags fault.access
  let copied := decide (kind = .notePrivate) && flags.dirty
  let (status, f, created) ←
    faultFrame b kind (backingOffset mapping fault.pageAddress) flags.dirty
  if status ≠ .ok then pure (status, t, faultFail fault (frameFailure status) status)
  else do
    let (status, t) ← t.map fault.pageAddress f mapping.prot
      (sharingFlags kind mapping.maxProt copied flags)
    frameRelease f
    if status ≠ .ok then pure (status, t, faultFail fault .noFrame status)
    else
      let (reason, resolution) := missingResolution kind created copied
      pure (.ok, t, { fault with reason := reason, resolution := resolution })

/-- The write fault on an entry that is to be copied. -/
def faultCow (t : PageTable) (mapping : Vma) (pte : Pte) (fault : FaultInfo) :
    Code (Status × PageTable × FaultInfo) := do
  let (status, f) ← frameCopy pte.frame
  if status ≠ .ok then pure (status, t, faultFail fault (frameFailure status) status)
  else do
    let (status, t) ← t.replaceFrame fault.pageAddress f mapping.prot (accessFlags fault.access)
      { cow := true }
    frameRelease f
    if status ≠ .ok then pure (status, t, faultFail fault (frameFailure status) status)
    else pure (.ok, t, { fault with reason := .cow, resolution := .cowCopied })

/-- Any other fault on a page that has an entry. -/
def faultPresent (t : PageTable) (pte : Pte) (fault : FaultInfo) :
    Code (Status × PageTable × FaultInfo) :=
  if faultAccessIsAllowed pte.protection fault.access = false then
    pure (.permission, t, faultFail fault .permission .permission)
  else do
    let (status, pagedIn) ← frameEnsureResident pte.frame
    if status ≠ .ok then pure (status, t, faultFail fault (frameFailure status) status)
    else do
      let (status, t) ← t.updateFlags fault.pageAddress (accessFlags fault.access) {}
      if status ≠ .ok then pure (status, t, faultFail fault .noFrame status)
      else if pagedIn then
        pure (.ok, t, { fault with reason := .notPresent, resolution := .pageIn })
      else pure (.ok, t, { fault with resolution := .noAction })

/-- The fault on a page of a mapping that allows the access. -/
def faultMapped (c : Space) (mapping : Vma) (b : BackingId) (fault : FaultInfo) :
    Code (Status × PageTable × FaultInfo) := do
  let i ← Backing.info b
  match c.pteAt fault.pageAddress with
  | none => faultMissing c.pageTable mapping b i.kind fault
  | some pte =>
    if pte.flags.cow = true ∧ (accessFlags fault.access).dirty = true then
      faultCow c.pageTable mapping pte fault
    else faultPresent c.pageTable pte fault

/-- Replace the translation of a page by its entry. -/
def refreshTlb (i : SpaceId) (t : PageTable) (page : ℕ) : Code Unit := do
  Tlb.invalidatePage i page
  match t.lookup page with
  | none => pure ()
  | some pte => Tlb.insert i page pte

/-- `minimm_handle_page_fault_locked` between its beginning and the label `done`. -/
def resolveFault (i : SpaceId) (c : Space) (fault : FaultInfo) :
    Code (Status × Space × FaultInfo) :=
  match c.vmaSnapshot.lookup fault.address with
  | none => pure (.notFound, c, faultFail fault .unmapped .notFound)
  | some mapping =>
    if faultAccessIsAllowed mapping.prot fault.access = false then
      pure (.permission, c, faultFail fault .permission .permission)
    else
      match Binding.find mapping.mappingCookie c.bindings with
      | none => pure (.notFound, c, faultFail fault .noFrame .notFound)
      | some binding => do
        let (status, t, fault) ← faultMapped c mapping binding.backing fault
        if status ≠ .ok then pure (status, c.setTable t, fault)
        else do
          refreshTlb i t fault.pageAddress
          pure (.ok, c.setTable t, fault)

/-- `minimm_handle_page_fault_locked`, with what it stores in `out_fault`: nothing if it refuses its
arguments. -/
def handlePageFaultLocked (i : SpaceId) (c : Space) (address : ℕ) (access : Access)
    (origin : FaultOrigin) : Code ((Status × Option FaultInfo) × Space) :=
  if address ≥ userAddressLimit ∨ access = .invalid then pure ((.invalidArgument, none), c)
  else do
    let (fault, c) := c.faultBegin address access origin
    let (status, c, fault) ← resolveFault i c fault
    let fault := { fault with status := status }
    pure ((status, some fault), c.faultTraceAppend fault)

/-- `minimm_handle_page_fault`. -/
def handlePageFault (i : SpaceId) (address : ℕ) (access : Access) :
    Code (Status × Option FaultInfo) :=
  withLock i (.busy, none) fun c ↦ handlePageFaultLocked i c address access .explicit

/-- `minimm_fault_trace_t`. -/
structure FaultTrace where
  count : ℕ
  overwrittenCount : ℕ
  events : List (Option FaultInfo)
  deriving DecidableEq, Repr

/-- What `minimm_space_get_fault_trace` copies out of the ring. -/
def faultTraceEvents (c : Space) : FaultTrace where
  count := c.faultTraceCount
  overwrittenCount := c.faultTraceOverwrittenCount
  events := (List.range c.faultTraceCount).map fun index ↦
    c.faultTrace ((c.faultTraceStart + index) % faultTraceCapacity)

/-- `minimm_space_get_fault_trace`. -/
def getFaultTrace (i : SpaceId) : Code (Status × FaultTrace) :=
  withLock i (.busy, ⟨0, 0, []⟩) fun c ↦ pure ((.ok, c.faultTraceEvents), c)

/-- The ring after `minimm_space_clear_fault_trace`. -/
def withoutFaultTrace (c : Space) : Space :=
  { c with
    faultTrace := fun _ ↦ none
    faultTraceStart := 0
    faultTraceCount := 0
    faultTraceOverwrittenCount := 0 }

/-- `minimm_space_clear_fault_trace`. -/
def clearFaultTrace (i : SpaceId) : Code Status :=
  withLock i .busy fun c ↦ pure (.ok, c.withoutFaultTrace)

end Space

end MiniMM
