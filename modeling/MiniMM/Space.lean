import MiniMM.Backing
import MiniMM.Tlb

/-!
# Spaces

`space.c`, the TLB flush of `stats.c`, and what the calls on a space share. A call takes the lock of
the space, works on the value it protects and puts it back.
-/

namespace MiniMM

/-- `MINIMM_BRK_BASE`. -/
def brkBase : ℕ := 0x100000000

namespace Space

/-- The fields that `minimm_space_create` sets. -/
def new : Space where
  pageTable := .empty
  vmaSnapshot := .empty
  mmapBase := 0x100000
  nextMappingCookie := 1
  faultSequence := 0
  faultTrace := fun _ ↦ none
  faultTraceStart := 0
  faultTraceCount := 0
  faultTraceOverwrittenCount := 0
  bindings := []
  closing := false

end Space

/-- `minimm_create`: nothing has been made yet. -/
def Sys.created (host : Host) (file : FileId → FileBacking) (pageCount tlbEntries : ℕ) : Sys where
  store := .create host file pageCount
  refs := fun _ ↦ 0
  tlbEntries := tlbEntries
  space := fun _ ↦ .new
  brk := fun _ ↦ ⟨brkBase, brkBase⟩
  tlb := fun _ ↦ emptyTlb tlbEntries
  nextSpace := 0
  backingInfo := fun _ ↦ ⟨.anonPrivate, none⟩
  backingPages := fun _ ↦ []
  backingRefs := fun _ ↦ 0
  nextBacking := 0
  noteInfo := fun _ ↦ ⟨0, {}, 0, false⟩
  noteSize := fun _ ↦ 0
  noteRefs := fun _ ↦ 0
  activeMappings := fun _ ↦ 0
  nextNote := 0
  lineage := fun _ ↦ ⟨[], fun _ ↦ ⟨[], none, [], 0⟩⟩
  nextLineage := 0
  nextFile := 0
  held := fun _ ↦ false

namespace Space

/-- Consecutive allocations, of which the first that fails ends the call. -/
def allocateAll : ℕ → Code Bool
  | 0 => pure true
  | n + 1 => do
    let allocated ← Code.malloc
    if allocated then allocateAll n else pure false

/-- `minimm_space_create`; the locks of the new space are held. The allocations are the space, its
page table and root node, its TLB and entries, its RCU domain and its first snapshot. -/
def createLocked : Code (Status × Option SpaceId) := do
  let allocated ← allocateAll 3
  if allocated = false then pure (.outOfMemory, none)
  else do
    let available ← .step .tlbAvailable
    if available = false then pure (.invalidArgument, none)
    else do
      let allocated ← allocateAll 4
      if allocated = false then pure (.outOfMemory, none)
      else do
        let i ← .step (.newSpace .new ⟨MiniMM.brkBase, MiniMM.brkBase⟩)
        pure (.ok, some i)

/-- `minimm_space_create`. -/
def create : Code (Status × Option SpaceId) := do
  let (status, i) ← createLocked
  match i with
  | none => pure (status, none)
  | some i => do
    .step (.unlockSpace i .new)
    .step (.unlockBrk i ⟨MiniMM.brkBase, MiniMM.brkBase⟩)
    pure (status, some i)

/-- What is left of a destroyed space. -/
def closed (c : Space) : Space :=
  { c with pageTable := .empty, vmaSnapshot := .empty, bindings := [], closing := true }

/-- The part of `minimm_space_destroy` that frees what the space holds. The caller has the lock:
the source releases it first, but no other call may use a space that is being destroyed. -/
def destroyLocked (i : SpaceId) (c : Space) : Code Unit := do
  Tlb.destroy i
  c.pageTable.destroy
  Binding.listDestroy c.bindings
  .step (.unlockSpace i c.closed)

/-- `minimm_space_destroy`. -/
def destroy (i : SpaceId) : Code Unit := do
  let c ← .step (.lockSpace i)
  destroyLocked i c

/-- The frame of calls that refuse a closing space: lock, check, run, unlock. -/
def withLock {α : Type} (i : SpaceId) (busy : α) (body : Space → Code (α × Space)) : Code α := do
  let c ← .step (.lockSpace i)
  if c.closing then do
    .step (.unlockSpace i c)
    pure busy
  else do
    let (r, c) ← body c
    .step (.unlockSpace i c)
    pure r

/-- `minimm_space_flush_tlb`. -/
def flushTlb (i : SpaceId) : Code Status :=
  withLock i .busy fun c ↦ do
    Tlb.flush i
    pure (.ok, c)

/-- `minimm_page_table_lookup` in the table of the space. -/
def pteAt (c : Space) (address : ℕ) : Option Pte := c.pageTable.lookup address

def setTable (c : Space) (t : PageTable) : Space := { c with pageTable := t }

/-- `minimm_mapping_publish_locked`. Retiring the old snapshot takes one allocation, and its failure
only makes the writer wait for the readers. -/
def publishLocked (c : Space) (next : VmaSnapshot) : Code Space := do
  let _ ← Code.malloc
  pure { c with vmaSnapshot := next }

end Space

end MiniMM
