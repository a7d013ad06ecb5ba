import MiniMM.Fault

/-!
# Reads, writes and edits

`access.c`.
-/

namespace MiniMM

namespace Space

/-- `minimm_access_validate`. -/
def accessValidate (address length : ℕ) : Status :=
  if address > userAddressLimit ∨ (length ≠ 0 ∧ address ≥ userAddressLimit) ∨
      length > userAddressLimit - address then .invalidArgument
  else .ok

/-- `minimm_access_pte_requires_fault`, for an entry that exists. -/
def pteRequiresFault (pte : Pte) (access : Access) (write : Bool) : Code Bool := do
  let resident ← Code.store (.isResident pte.frame)
  pure (!resident || (write && pte.flags.cow) || !faultAccessIsAllowed pte.protection access)

/-- Set the flags of an access in a pinned entry, or give the pin back. -/
def refillFlags (c : Space) (page : ℕ) (pte : Pte) (flags : PteFlags) :
    Code (Status × Space × Pte) :=
  if pte.flags.includes flags then pure (.ok, c, pte)
  else do
    let (status, t) ← c.pageTable.updateFlags page flags {}
    if status ≠ .ok then do
      Code.store (.unpinResident pte.frame)
      pure (status, c.setTable t, pte)
    else
      match t.lookup page with
      -- not reached: the update has just found the entry
      | none => pure (.notFound, c.setTable t, pte)
      | some pte => pure (.ok, c.setTable t, pte)

/-- The round of `minimm_access_refill_locked` that takes a fault; `again` is the next round. -/
def refillFault (i : SpaceId) (address : ℕ) (access : Access)
    (again : Space → Code (Status × Space × Option Pte)) (c : Space) :
    Code (Status × Space × Option Pte) := do
  let ((status, _), c) ← handlePageFaultLocked i c address access .access
  if status ≠ .ok then pure (status, c, none)
  else
    match c.pteAt (pageOf address) with
    | none => pure (.notFound, c, none)
    | some pte => do
      let pinned ← Code.store (.tryPinResident pte.frame)
      if pinned then pure (.ok, c, some pte) else again c

/-- The loop of `minimm_access_refill_locked`: on success the frame of the entry carries a transient
pin. An eviction by another space can undo a round, and `spin` bounds the rounds. -/
def refillLoop (i : SpaceId) (address : ℕ) (access : Access) (write : Bool) :
    ℕ → Space → Code (Status × Space × Option Pte)
  | 0, c => do
    .step .stuck
    pure (.ok, c, none)
  | spin + 1, c =>
    match c.pteAt (pageOf address) with
    | none => refillFault i address access (refillLoop i address access write spin) c
    | some pte => do
      let fault ← pteRequiresFault pte access write
      if fault then refillFault i address access (refillLoop i address access write spin) c
      else do
        let pinned ← Code.store (.tryPinResident pte.frame)
        if pinned = false then refillLoop i address access write spin c
        else do
          let (status, c, pte) ← refillFlags c (pageOf address) pte
            { accessed := true, dirty := write }
          pure (status, c, if status = .ok then some pte else none)

/-- `minimm_access_refill_locked`: the translation of a page, retained and pinned. -/
def refillLocked (i : SpaceId) (c : Space) (address : ℕ) (access : Access) (write : Bool)
    (spin : ℕ) : Code (Status × Space × Option Pte) := do
  let (status, c, pte) ← refillLoop i address access write spin c
  match pte with
  | none => pure (status, c, none)
  | some pte => do
    Tlb.insert i (pageOf address) pte
    frameRetain pte.frame
    pure (.ok, c, some pte)

/-- A translation of the TLB that the access can use as it is. -/
def translationSuffices (pte : Pte) (access : Access) (write : Bool) : Bool :=
  !((write && pte.flags.cow) || !faultAccessIsAllowed pte.protection access ||
    !pte.flags.accessed || (write && !pte.flags.dirty))

/-- The TLB half of the translation of an address: retained and pinned if it can be used. -/
def translateHit (i : SpaceId) (address : ℕ) (access : Access) (write : Bool) :
    Code (Option Pte) := do
  let found ← Tlb.lookup i address
  match found with
  | none => pure none
  | some pte =>
    if translationSuffices pte access write = false then do
      frameRelease pte.frame
      pure none
    else do
      let pinned ← Code.store (.tryPinResident pte.frame)
      if pinned then pure (some pte)
      else do
        frameRelease pte.frame
        pure none

/-- The translation of an address, retained and pinned. -/
def translateLocked (i : SpaceId) (c : Space) (address : ℕ) (access : Access) (write : Bool)
    (spin : ℕ) : Code (Status × Space × Option Pte) := do
  let hit ← translateHit i address access write
  match hit with
  | some pte => pure (.ok, c, some pte)
  | none => refillLocked i c address access write spin

/-- What an access moves: bytes to write, or the number of bytes to read. -/
inductive Transfer where
  | read (length : ℕ)
  | write (bytes : List UInt8)
  deriving DecidableEq, Repr

def Transfer.length : Transfer → ℕ
  | .read length => length
  | .write bytes => bytes.length

def Transfer.isWrite : Transfer → Bool
  | .read _ => false
  | .write _ => true

/-- Move one chunk through a frame; a read returns its bytes. -/
def transferChunk (f : FrameId) (within completed chunk : ℕ) :
    Transfer → Code (Status × List UInt8)
  | .read _ => frameRead f within chunk
  | .write bytes => do
    let status ← frameWrite f within ((bytes.drop completed).take chunk)
    pure (status, [])

/-- One round of the loop of `minimm_access_memory`, within one page. -/
def accessChunk (i : SpaceId) (c : Space) (address completed chunk : ℕ) (access : Access)
    (x : Transfer) (spin : ℕ) : Code (Status × Space × List UInt8) :=
  match c.vmaSnapshot.lookup address with
  | none => deny
  | some mapping =>
    if faultAccessIsAllowed mapping.prot access = false then deny
    else do
      let (status, c, pte) ← translateLocked i c address access x.isWrite spin
      match pte with
      | none => pure (status, c, [])
      | some pte =>
        if faultAccessIsAllowed pte.protection access = false then do
          Code.store (.unpinResident pte.frame)
          frameRelease pte.frame
          pure (.permission, c, [])
        else do
          let (status, data) ← transferChunk pte.frame (address % pageSize) completed chunk x
          Code.store (.unpinResident pte.frame)
          frameRelease pte.frame
          pure (status, c, data)
where
  /-- A denied access is an observable fault. -/
  deny : Code (Status × Space × List UInt8) := do
    let ((status, _), c) ← handlePageFaultLocked i c address access .access
    pure (status, c, [])

/-- The loop of `minimm_access_memory`, with the bytes read so far. -/
def accessLoop (i : SpaceId) (address : ℕ) (access : Access) (x : Transfer) (spin : ℕ) :
    ℕ → Space → ℕ → List UInt8 → Code ((Status × ℕ × List UInt8) × Space)
  | 0, c, completed, bytes => pure ((.ok, completed, bytes), c)
  | fuel + 1, c, completed, bytes =>
    if completed < x.length then do
      let current := address + completed
      let chunk := min (x.length - completed) (pageSize - current % pageSize)
      let (status, c, data) ← accessChunk i c current completed chunk access x spin
      if status ≠ .ok then pure ((status, completed, bytes), c)
      else accessLoop i address access x spin fuel c (completed + chunk) (bytes ++ data)
    else pure ((.ok, completed, bytes), c)

/-- `minimm_access_memory`: the status, the number of completed bytes and the bytes read. -/
def accessMemory (i : SpaceId) (address : ℕ) (access : Access) (x : Transfer) (spin : ℕ) :
    Code (Status × ℕ × List UInt8) :=
  if accessValidate address x.length ≠ .ok ∨ x.length = 0 then
    pure (accessValidate address x.length, 0, [])
  else
    withLock i (.busy, 0, []) fun c ↦ accessLoop i address access x spin x.length c 0 []

/-- `minimm_read`. -/
def read (i : SpaceId) (source length spin : ℕ) : Code (Status × ℕ × List UInt8) :=
  accessMemory i source .read (.read length) spin

/-- `minimm_write`. -/
def write (i : SpaceId) (destination : ℕ) (bytes : List UInt8) (spin : ℕ) :
    Code (Status × ℕ × List UInt8) :=
  accessMemory i destination .write (.write bytes) spin

/-- `minimm_edit`. -/
def edit (i : SpaceId) (destination : ℕ) (bytes : List UInt8) (spin : ℕ) :
    Code (Status × ℕ × List UInt8) :=
  accessMemory i destination .edit (.write bytes) spin

end Space

end MiniMM
