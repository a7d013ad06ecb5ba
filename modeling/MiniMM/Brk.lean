import MiniMM.Remap

/-!
# The program break

`brk.c`.
-/

namespace MiniMM

namespace Space

/-- `minimm_brk_page_end`. -/
def brkPageEnd (address : ℕ) : ℕ := (address + pageSize - 1) / pageSize * pageSize

/-- `minimm_brk_map_range`. -/
def brkMapRange (i : SpaceId) (start stop : ℕ) : Code Status := do
  let (status, mapped) ← mmap i {
    addressHint := start
    length := stop - start
    noteOffset := 0
    protection := { read := true, write := true }
    maximumProtection := { read := true, write := true, edit := true }
    flags := { «private» := true, anonymous := true, fixedNoreplace := true }
    note := none }
  if status = .ok ∧ mapped ≠ start then do
    let _ ← munmap i mapped (stop - start)
    pure .addressInUse
  else pure status

/-- `minimm_brk_set_locked`. -/
def brkSetLocked (i : SpaceId) (b : Brk) (requestedEnd : ℕ) : Code (Status × Brk) :=
  if requestedEnd < b.brkBase ∨ requestedEnd ≥ userAddressLimit then pure (.invalidArgument, b)
  else do
    let status ← move (brkPageEnd b.brkEnd) (brkPageEnd requestedEnd)
    pure (status, if status = .ok then { b with brkEnd := requestedEnd } else b)
where
  /-- Move the end of the last page. -/
  move (oldEnd newEnd : ℕ) : Code Status :=
    if newEnd = oldEnd then pure .ok
    else if oldEnd = b.brkBase then brkMapRange i b.brkBase newEnd
    else if newEnd = b.brkBase then munmap i b.brkBase (oldEnd - b.brkBase)
    else if newEnd < oldEnd then munmap i newEnd (oldEnd - newEnd)
    else do
      let status ← extendHeap i b.brkBase oldEnd newEnd
      if status = .unsupported then brkMapRange i oldEnd newEnd else pure status

/-- `minimm_brk`: the status and the end of the break. -/
def brk (i : SpaceId) (requestedEnd : ℕ) : Code (Status × ℕ) := do
  let b ← .step (.lockBrk i)
  let (status, b) ← (if requestedEnd ≠ 0 then brkSetLocked i b requestedEnd else pure (.ok, b))
  .step (.unlockBrk i b)
  pure (status, b.brkEnd)

/-- The end that `minimm_sbrk` asks for, or why it cannot. -/
def sbrkTarget (b : Brk) (increment : ℤ) : Except Status ℕ :=
  if increment ≥ 0 then
    if increment.toNat ≥ userAddressLimit - b.brkEnd ∧ increment ≠ 0 then .error .noSpace
    else .ok (b.brkEnd + increment.toNat)
  else if (-increment).toNat > b.brkEnd - b.brkBase then .error .invalidArgument
  else .ok (b.brkEnd - (-increment).toNat)

/-- Move the break by an increment. -/
def sbrkSetLocked (i : SpaceId) (b : Brk) (increment : ℤ) : Code (Status × Brk) :=
  match sbrkTarget b increment with
  | .error status => pure (status, b)
  | .ok requestedEnd => if increment ≠ 0 then brkSetLocked i b requestedEnd else pure (.ok, b)

/-- `minimm_sbrk`: the status and the previous end of the break. -/
def sbrk (i : SpaceId) (increment : ℤ) : Code (Status × ℕ) := do
  let b ← .step (.lockBrk i)
  let (status, after) ← sbrkSetLocked i b increment
  .step (.unlockBrk i after)
  pure (status, b.brkEnd)

end Space

end MiniMM
