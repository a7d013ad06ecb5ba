import MiniMM.Fault

/-!
# Fork

`fork.c`.
-/

namespace MiniMM

namespace Space

/-- The flags that `minimm_fork_copy_pte` gives the entry of the child. -/
def forkFlags (mapping : Vma) (flags : PteFlags) : PteFlags :=
  let flags := { flags with locked := false, accessed := false }
  if mapping.shared then { flags with shared := true, cow := false, dirty := false }
  else if mapping.maxProt.writable then { flags with cow := true, shared := false }
  else { flags with cow := false, shared := false }

/-- The pass of `minimm_fork_copy_pte` over the entries of the parent. -/
def forkCopyPtes (snapshot : VmaSnapshot) :
    List (ℕ × Pte) → PageTable → Code (Status × PageTable)
  | [], t => pure (.ok, t)
  | (page, pte) :: rest, t =>
    match snapshot.lookup (page * pageSize) with
    | none => pure (.notFound, t)
    | some mapping => do
      let (status, t) ← t.map (page * pageSize) pte.frame mapping.prot
        (forkFlags mapping pte.flags)
      if status ≠ .ok then pure (status, t) else forkCopyPtes snapshot rest t

/-- The flags that `minimm_fork_commit_parent_cow` sets and clears. -/
def forkCommitFlags (mapping : Vma) : PteFlags × PteFlags :=
  if mapping.shared then ({ shared := true }, { cow := true })
  else if mapping.maxProt.writable = false then ({}, { cow := true, shared := true })
  else ({ cow := true }, { shared := true })

/-- The pass of `minimm_fork_commit_parent_cow`. -/
def forkCommitParentCow (snapshot : VmaSnapshot) :
    List (ℕ × Pte) → PageTable → Code (Status × PageTable)
  | [], t => pure (.ok, t)
  | (page, _) :: rest, t =>
    match snapshot.lookup (page * pageSize) with
    | none => pure (.notFound, t)
    | some mapping => do
      let (status, t) ← t.updateAttributes (page * pageSize) mapping.prot
        (forkCommitFlags mapping).1 (forkCommitFlags mapping).2
      if status ≠ .ok then pure (status, t) else forkCommitParentCow snapshot rest t

/-- The child before it gets its entries: what `minimm_space_fork` takes from the parent. -/
def forkChild (parent : Space) (snapshot : VmaSnapshot) (bindings : List Binding)
    (t : PageTable) : Space :=
  { Space.new with
    pageTable := t
    vmaSnapshot := snapshot
    bindings := bindings
    mmapBase := parent.mmapBase
    nextMappingCookie := parent.nextMappingCookie }

/-- A child whose bindings have been destroyed. -/
def unbound (c : Space) : Space := { c with bindings := [] }

/-- The two passes of `minimm_space_fork`: the new tables of parent and child, and whether both
passes succeeded. -/
def forkTables (i : SpaceId) (c : Space) : Code (Status × PageTable × PageTable) := do
  let (status, child) ← forkCopyPtes c.vmaSnapshot c.pageTable.entries .empty
  if status ≠ .ok then pure (status, c.pageTable, child)
  else do
    let (status, t) ← forkCommitParentCow c.vmaSnapshot c.pageTable.entries c.pageTable
    if status ≠ .ok then pure (status, t, child)
    else do
      Tlb.flush i
      pure (.ok, t, child)

/-- `minimm_space_fork` under the locks of the parent. Returns the child with what it has so
far. -/
def forkLocked (i : SpaceId) (c : Space) : Code ((Status × Space) × Space) := do
  let (status, snapshot) ← c.vmaSnapshot.clone
  match snapshot with
  | none => pure ((status, .new), c)
  | some snapshot => do
    let (status, bindings) ← Binding.listClone c.bindings
    if status ≠ .ok then pure ((status, .new), c)
    else do
      let (status, t, child) ← forkTables i c
      pure ((status, c.forkChild snapshot bindings child), c.setTable t)

/-- `minimm_space_fork`. -/
def fork (i : SpaceId) : Code (Status × Option SpaceId) := do
  let (status, made) ← createLocked
  match made with
  | none => pure (status, none)
  | some child => do
    let brk ← .step (.lockBrk i)
    let (status, contents) ← withLock i (.busy, .new) (forkLocked i)
    .step (.unlockBrk i brk)
    if status ≠ .ok then do
      Binding.listDestroy contents.bindings
      .step (.unlockBrk child ⟨MiniMM.brkBase, MiniMM.brkBase⟩)
      destroyLocked child contents.unbound
      pure (status, none)
    else do
      .step (.unlockSpace child contents)
      .step (.unlockBrk child brk)
      pure (.ok, some child)

end Space

end MiniMM
