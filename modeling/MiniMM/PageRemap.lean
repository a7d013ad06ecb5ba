import MiniMM.Mapping

/-!
# Remapping a page of a file

A file mapping may not be writable and executable at once. The hook that says so is asked before
the first mapping, and not before the one that replaces a page of it.
-/

namespace MiniMM.PageRemap

open Code Vma

/-- `minimm_page_remap_context_t`. -/
structure Context where
  readImpliesExec : Bool
  deriving DecidableEq, Repr

/-- `minimm_page_remap_effective_protection`. -/
def effectiveProtection (context : Context) (protection : Prot) : Prot :=
  if context.readImpliesExec = true ∧ protection.read = true then { protection with exec := true }
  else protection

/-- `minimm_page_remap_security_mmap_file`. -/
def securityMmapFile (context : Context) (args : MmapArgs) : Status :=
  let effective := effectiveProtection context args.protection
  if args.flags.anonymous = false ∧ effective.write = true ∧ effective.exec = true then .permission
  else .ok

/-- `minimm_page_remap_do_mmap`. -/
def doMmap (i : SpaceId) (context : Context) (args : MmapArgs) : Code (Status × ℕ) :=
  Space.mmap i { args with protection := effectiveProtection context args.protection }

/-- `minimm_page_remap_checked_mmap`. -/
def checkedMmap (i : SpaceId) (context : Context) (args : MmapArgs) : Code (Status × ℕ) :=
  let status := securityMmapFile context args
  if status ≠ .ok then pure (status, addressAuto) else doMmap i context args

/-- What `minimm_page_remap_file_pages` maps in place of the page at `address`. -/
def filePagesArgs (n : NoteId) (address noteOffset : ℕ) (mapping : Space.MappingInfo) :
    MmapArgs where
  addressHint := address
  length := pageSize
  noteOffset := noteOffset
  protection := mapping.protection
  maximumProtection := mapping.maximumProtection
  flags := { shared := true, fixed := true }
  note := some n

/-- `minimm_page_remap_file_pages`. -/
def filePages (i : SpaceId) (n : NoteId) (address noteOffset : ℕ) : Code Status := do
  let (status, mapping) ← Space.mappingQuery i address
  match mapping with
  | none => pure status
  | some mapping =>
    if mapping.start ≠ address ∨ mapping.shared = false ∨
        mapping.protection ≠ { read := true, write := true } ∨
        ({ read := true, write := true, exec := true } : Prot).within
          mapping.maximumProtection = false then pure .io
    else do
      let (status, remapped) ← doMmap i ⟨true⟩ (filePagesArgs n address noteOffset mapping)
      if status ≠ .ok then pure status
      else pure (if remapped = address then .ok else .io)

/-- What `minimm_page_remap_apply` maps first: the whole note. -/
def applyArgs (n : NoteId) (noteSize : ℕ) : MmapArgs where
  addressHint := addressAuto
  length := noteSize
  noteOffset := 0
  protection := { read := true, write := true }
  maximumProtection := { read := true, write := true, exec := true }
  flags := { shared := true }
  note := some n

/-- The part of `minimm_page_remap_apply` between the creation of its space and its end. -/
def applyIn (i : SpaceId) (n : NoteId) (noteSize noteOffset : ℕ) : Code (Status × Prot) := do
  let (status, address) ← checkedMmap i ⟨false⟩ (applyArgs n noteSize)
  let status ← (if status = .ok then filePages i n address noteOffset else pure status)
  if status ≠ .ok then pure (status, .none)
  else do
    let (status, remapped) ← Space.mappingQuery i address
    pure (status, (remapped.map Space.MappingInfo.protection).getD .none)

/-- `minimm_page_remap_apply`: the status and the protection of the page. -/
def apply (n : NoteId) (noteOffset : ℕ) : Code (Status × Prot) := do
  let noteSize ← Note.loadSize n
  if noteOffset % pageSize ≠ 0 ∨ noteOffset > noteSize ∨ pageSize > noteSize - noteOffset then
    pure (.invalidArgument, .none)
  else do
    let info ← Note.info n
    if info.rights.read = false ∨ info.rights.write = false ∨ info.rights.share = false then
      pure (.permission, .none)
    else do
      let (status, space) ← Space.create
      match space with
      | none => pure (status, .none)
      | some i => do
        let r ← applyIn i n noteSize noteOffset
        Space.destroy i
        pure r

/-- The protection that the hook is there to refuse. -/
def writableCode : Prot := { read := true, write := true, exec := true }

end MiniMM.PageRemap
