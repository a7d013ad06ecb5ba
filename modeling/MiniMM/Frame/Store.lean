import MiniMM.Basic

/-!
# The frame store

The locked sections of the frame store.  A frame is a page of content that
lives in a slot of the resident arena, in a slot of the swap file, in a page of
a backing file, or nowhere while it is still zero.  Reference counts are atomic
and are not kept under the store's lock, so they are not part of this state.
-/

namespace MiniMM

abbrev FrameId := ℕ

abbrev FileId := ℕ

/-- `minimm_frame_source_t`. -/
inductive FrameSource where
  | zero
  | file
  deriving DecidableEq, Repr

/-- `struct minimm_frame`.  A frame has `data` exactly when it has a resident
slot, so one field stands for both. -/
structure Frame where
  source : FrameSource := .zero
  fileBacking : FileId := 0
  fileOffset : ℕ := 0
  fileShared : Bool := false
  residentSlot : Option ℕ := none
  swapSlot : Option ℕ := none
  lastAccess : ℕ := 0
  mappings : ℕ := 0
  pinCount : ℕ := 0
  transientPinCount : ℕ := 0
  dirty : Bool := false
  cold : Bool := false
  reclaimPending : Bool := false
  deriving DecidableEq, Repr

/-- `struct minimm_file_backing`: the file behind the descriptor and the first
write-back error. -/
structure FileBacking where
  bytes : ByteFile.Bytes
  writebackError : Status := .ok

/-- `struct minimm_frame_store`, with the files it reads and writes. -/
structure FrameStore where
  host : Host
  frame : FrameId → Frame
  /-- The linked list of live frames, newest first. -/
  frames : List FrameId
  frameCount : ℕ
  residentCount : ℕ
  residentLimit : ℕ
  transientWaiterCount : ℕ
  nextFrameId : ℕ
  nextSwapOffset : ℕ
  clock : ℕ
  pageInCount : ℕ
  pageOutCount : ℕ
  reclaimScanCount : ℕ
  reclaimCount : ℕ
  refaultCount : ℕ
  swapSlotCount : ℕ
  swapSlotHighWater : ℕ
  /-- Offsets of the swap slots on the free list. -/
  freeSwapSlots : List ℕ
  residentArena : ℕ → Page
  /-- The stack of free resident slots, top first. -/
  freeResidentSlots : List ℕ
  swap : ByteFile.Bytes
  file : FileId → FileBacking
  destroyRequested : Bool

/-- `minimm_read_page`; `none` is an I/O error. -/
def readPage (h : Host) (bytes : ByteFile.Bytes) (offset : ℕ) : Option Page × Host :=
  if offset > int64Max then (none, h)
  else
    let (success, h) := h.preadPage
    (if success then some (ByteFile.readAt pageSize bytes offset) else none, h)

/-- `minimm_write_page`, with the file it leaves. -/
def writePage (h : Host) (bytes : ByteFile.Bytes) (offset : ℕ) (data : Page) :
    Status × ByteFile.Bytes × Host :=
  if offset > int64Max then (.io, bytes, h)
  else
    match h.pwritePage with
    | (none, h) => (.ok, ByteFile.writeAt bytes offset data, h)
    | (some k, h) => (.io, ByteFile.writePrefix bytes offset k data, h)

/-- `minimm_file_backing_latch_error`: the first error stays. -/
def FileBacking.latchError (b : FileBacking) (status : Status) : FileBacking :=
  if b.writebackError = .ok then { b with writebackError := status } else b

namespace FrameStore

/-- `minimm_frame_store_create` on a valid limit, over files that exist. -/
def create (host : Host) (file : FileId → FileBacking) (residentLimit : ℕ) :
    FrameStore where
  host := host
  frame := fun _ ↦ {}
  frames := []
  frameCount := 0
  residentCount := 0
  residentLimit := residentLimit
  transientWaiterCount := 0
  nextFrameId := 1
  nextSwapOffset := 0
  clock := 0
  pageInCount := 0
  pageOutCount := 0
  reclaimScanCount := 0
  reclaimCount := 0
  refaultCount := 0
  swapSlotCount := 0
  swapSlotHighWater := 0
  freeSwapSlots := []
  residentArena := fun _ ↦ 0
  freeResidentSlots := List.range residentLimit
  swap := fun _ ↦ 0
  file := file
  destroyRequested := false

def setFrame (m : FrameStore) (f : FrameId) (x : Frame) : FrameStore :=
  { m with frame := Function.update m.frame f x }

/-- The frame has `data`. -/
def resident (m : FrameStore) (f : FrameId) : Bool :=
  (m.frame f).residentSlot.isSome

/-! ## Swap slots and write back -/

/-- `minimm_frame_acquire_swap_slot_locked`. -/
def acquireSwapSlotLocked (m : FrameStore) (f : FrameId) : Status × FrameStore :=
  let x := m.frame f
  match x.swapSlot, m.freeSwapSlots with
  | some _, _ => (.ok, m)
  | none, offset :: slots =>
    (.ok, { m with
      frame := Function.update m.frame f { x with swapSlot := some offset }
      freeSwapSlots := slots
      swapSlotCount := m.swapSlotCount + 1 })
  | none, [] =>
    if m.nextSwapOffset > int64Max - pageSize ∨ m.swapSlotHighWater = sizeMax then
      (.noSpace, m)
    else
      match m.host.malloc with
      | (false, host) => (.outOfMemory, { m with host := host })
      | (true, host) =>
        (.ok, { m with
          host := host
          frame := Function.update m.frame f { x with swapSlot := some m.nextSwapOffset }
          nextSwapOffset := m.nextSwapOffset + pageSize
          swapSlotHighWater := m.swapSlotHighWater + 1
          swapSlotCount := m.swapSlotCount + 1 })

/-- `minimm_frame_release_swap_slot_locked`. -/
def releaseSwapSlotLocked (m : FrameStore) (f : FrameId) : Except Abort FrameStore :=
  let x := m.frame f
  match x.swapSlot with
  | none => .ok m
  | some offset =>
    if m.swapSlotCount = 0 then .error .swapSlotCount
    else .ok { m with
      frame := Function.update m.frame f { x with swapSlot := none }
      freeSwapSlots := offset :: m.freeSwapSlots
      swapSlotCount := m.swapSlotCount - 1 }

/-- The branch of `minimm_frame_write_back_locked` for a shared file page. -/
def writeBackFileLocked (m : FrameStore) (f : FrameId) (data : Page) : Status × FrameStore :=
  let x := m.frame f
  let b := m.file x.fileBacking
  if b.writebackError ≠ .ok then (b.writebackError, m)
  else
    let (status, bytes, host) := writePage m.host b.bytes x.fileOffset data
    (status, { m with
      host := host
      file := Function.update m.file x.fileBacking ({ b with bytes := bytes }.latchError status)
      frame := if status = .ok then Function.update m.frame f { x with dirty := false }
        else m.frame })

/-- The other branch: the page goes to its swap slot, acquired if need be. -/
def writeBackSwapLocked (m : FrameStore) (f : FrameId) (data : Page) : Status × FrameStore :=
  match m.acquireSwapSlotLocked f with
  | (.ok, m) =>
    let x := m.frame f
    let (status, bytes, host) := writePage m.host m.swap (x.swapSlot.getD 0) data
    (status, { m with
      host := host
      swap := bytes
      frame := if status = .ok then Function.update m.frame f { x with dirty := false }
        else m.frame })
  | (status, m) => (status, m)

/-- `minimm_frame_write_back_locked`. -/
def writeBackLocked (m : FrameStore) (f : FrameId) : Status × FrameStore :=
  let x := m.frame f
  match x.dirty, x.residentSlot with
  | true, some slot =>
    if x.source = .file ∧ x.fileShared then
      m.writeBackFileLocked f (m.residentArena slot)
    else
      m.writeBackSwapLocked f (m.residentArena slot)
  | _, _ => (.ok, m)

/-! ## Resident slots, eviction -/

/-- `minimm_frame_release_resident_slot_locked`. -/
def releaseResidentSlotLocked (m : FrameStore) (f : FrameId) : Except Abort FrameStore :=
  let x := m.frame f
  match x.residentSlot with
  | none => .error .residentSlot
  | some slot =>
    if slot ≥ m.residentLimit ∨ m.freeResidentSlots.length ≥ m.residentLimit ∨
        m.residentCount = 0 then
      .error .residentSlot
    else .ok { m with
      frame := Function.update m.frame f { x with residentSlot := none }
      freeResidentSlots := slot :: m.freeResidentSlots
      residentCount := m.residentCount - 1 }

/-- `minimm_frame_page_out_locked`. -/
def pageOutLocked (m : FrameStore) (f : FrameId) : Except Abort (Status × FrameStore) :=
  let x := m.frame f
  if x.residentSlot = none then
    .ok (.ok, m.setFrame f { x with cold := false })
  else if x.pinCount ≠ 0 ∨ x.transientPinCount ≠ 0 then
    .ok (.busy, m)
  else
    match m.writeBackLocked f with
    | (.ok, m) => do
        let m ← m.releaseResidentSlotLocked f
        return (.ok, { m.setFrame f { m.frame f with cold := false } with
          pageOutCount := counterIncrementSaturating m.pageOutCount })
    | (status, m) => .ok (status, m)

/-- `minimm_frame_precedes_candidate`. -/
def precedesCandidate (m : FrameStore) (f : FrameId) : Option FrameId → Bool
  | none => true
  | some c =>
    if (m.frame f).cold ≠ (m.frame c).cold then (m.frame f).cold
    else if (m.frame f).lastAccess ≠ (m.frame c).lastAccess then
      (m.frame f).lastAccess < (m.frame c).lastAccess
    else f < c

/-- The accumulators of the victim scan. -/
structure VictimScan where
  candidate : Option FrameId
  scanned : ℕ
  scanCount : ℕ

/-- One turn of the loop of `minimm_frame_select_victim_locked`. -/
def victimStep (m : FrameStore) (excluded : Option FrameId) (acc : VictimScan)
    (current : FrameId) : VictimScan :=
  let x := m.frame current
  if excluded = some current ∨ x.residentSlot = none then acc
  else
    { candidate :=
        if x.pinCount = 0 ∧ x.transientPinCount = 0 ∧ m.precedesCandidate current acc.candidate
        then some current else acc.candidate
      scanned := counterIncrementSaturating acc.scanned
      scanCount := counterIncrementSaturating acc.scanCount }

/-- `minimm_frame_select_victim_locked`: the victim and the number of frames scanned. -/
def selectVictimLocked (m : FrameStore) (excluded : Option FrameId) :
    Option FrameId × ℕ × FrameStore :=
  let scan := m.frames.foldl (m.victimStep excluded) ⟨none, 0, m.reclaimScanCount⟩
  (scan.candidate, scan.scanned, { m with reclaimScanCount := scan.scanCount })

/-- `minimm_frame_reclaim_page_locked`. -/
def reclaimPageLocked (m : FrameStore) (f : FrameId) : Except Abort (Status × FrameStore) := do
  let (status, m') ← m.pageOutLocked f
  if status = .ok ∧ m.resident f then
    return (.ok, { m'.setFrame f { m'.frame f with cold := false, reclaimPending := true } with
      reclaimCount := counterIncrementSaturating m'.reclaimCount })
  else
    return (status, m')

/-- `minimm_frame_has_transient_victim_locked`. -/
def hasTransientVictimLocked (m : FrameStore) (excluded : FrameId) : Bool :=
  m.frames.any fun g ↦ g ≠ excluded ∧ m.resident g ∧ (m.frame g).pinCount = 0 ∧
    (m.frame g).transientPinCount ≠ 0

/-! ## Page in -/

/-- How one pass through the loop of `minimm_frame_make_resident_locked` ends.
`waiting` is the pass that blocks on a transient pin and `noFreeSlot` the branch
that finds no slot after an eviction. -/
inductive PageIn where
  | resident (pagedIn : Bool)
  | failed (status : Status)
  | waiting
  | noFreeSlot
  deriving DecidableEq, Repr

/-- The staging read: the swap slot, else the file page, else zeros. -/
def readBackingLocked (m : FrameStore) (f : FrameId) : Option Page × FrameStore :=
  let x := m.frame f
  match x.swapSlot with
  | some offset =>
    let (data, host) := readPage m.host m.swap offset
    (data, { m with host := host })
  | none =>
    if x.source = .file then
      let (data, host) := readPage m.host (m.file x.fileBacking).bytes x.fileOffset
      (data, { m with host := host })
    else (some 0, m)

/-- The recency update of a frame that is already resident. -/
def touchLocked (m : FrameStore) (f : FrameId) : FrameStore :=
  let clock := (m.clock + 1) % 2 ^ 64
  { m.setFrame f { m.frame f with cold := false, lastAccess := clock } with clock := clock }

/-- `minimm_frame_acquire_resident_slot_locked` and what follows it in the page-in. -/
def installLocked (m : FrameStore) (f : FrameId) (data : Page) : PageIn × FrameStore :=
  match m.freeResidentSlots with
  | [] => (.noFreeSlot, m)
  | slot :: slots =>
    let x := m.frame f
    let clock := (m.clock + 1) % 2 ^ 64
    (.resident true, { m with
      freeResidentSlots := slots
      residentArena := Function.update m.residentArena slot data
      clock := clock
      frame := Function.update m.frame f { x with
        lastAccess := clock
        residentSlot := some slot
        cold := false
        reclaimPending := false }
      residentCount := m.residentCount + 1
      pageInCount := counterIncrementSaturating m.pageInCount
      refaultCount := if x.reclaimPending then counterIncrementSaturating m.refaultCount
        else m.refaultCount })

/-- One pass through the loop of `minimm_frame_make_resident_locked`. -/
def makeResidentLocked (m : FrameStore) (f : FrameId) : Except Abort (PageIn × FrameStore) :=
  if m.resident f then .ok (.resident false, m.touchLocked f)
  else
    match m.readBackingLocked f with
    | (none, m) => .ok (.failed .io, m)
    | (some data, m) =>
      if m.residentCount ≥ m.residentLimit then
        match m.selectVictimLocked (some f) with
        | (none, _, m) =>
          if !m.hasTransientVictimLocked f then .ok (.failed .busy, m)
          else if m.transientWaiterCount = sizeMax then .error .waiterCount
          else .ok (.waiting, { m with transientWaiterCount := m.transientWaiterCount + 1 })
        | (some victim, _, m) => do
            let (status, m) ← m.reclaimPageLocked victim
            if status = .ok then return m.installLocked f data
            else return (.failed status, m)
      else .ok (m.installLocked f data)

/-- What follows `pthread_cond_wait`; `false` when the wait itself failed. -/
def wakeLocked (m : FrameStore) : Bool × FrameStore :=
  let (success, host) := m.host.wait
  (success, { m with host := host, transientWaiterCount := m.transientWaiterCount - 1 })

/-- The three calls that page a frame in. -/
inductive Request where
  | read (offset length : ℕ)
  | write (offset : ℕ) (data : List UInt8)
  | ensureResident
  deriving DecidableEq, Repr

/-- What such a call returns. -/
structure Reply where
  status : Status
  data : List UInt8 := []
  pagedIn : Bool := false
  deriving DecidableEq, Repr

/-- The bytes `frame->data` of a resident frame. -/
def data (m : FrameStore) (f : FrameId) : Page :=
  m.residentArena ((m.frame f).residentSlot.getD 0)

/-- The part of a request that runs once the frame is resident. -/
def serveLocked (m : FrameStore) (f : FrameId) (pagedIn : Bool) : Request → Reply × FrameStore
  | .read offset length =>
    ({ status := .ok, data := ByteFile.slice (m.data f) offset length }, m)
  | .write offset data =>
    ({ status := .ok }, { m with
      residentArena := Function.update m.residentArena ((m.frame f).residentSlot.getD 0)
        (ByteFile.overwrite (m.data f) offset data)
      frame := Function.update m.frame f { m.frame f with dirty := true } })
  | .ensureResident => ({ status := .ok, pagedIn := pagedIn }, m)

/-- One locked section of a request; `none` while the call waits. -/
def passLocked (m : FrameStore) (f : FrameId) (r : Request) :
    Except Abort (Option Reply × FrameStore) := do
  let (result, m) ← m.makeResidentLocked f
  match result with
  | .resident pagedIn =>
    let (reply, m) := m.serveLocked f pagedIn r
    return (some reply, m)
  | .failed status => return (some { status := status }, m)
  | .noFreeSlot => return (some { status := .busy }, m)
  | .waiting => return (none, m)

/-- A locked section of `minimm_frame_read`, `minimm_frame_write` or
`minimm_frame_ensure_resident`: the first one, or one that starts when the
condition wait returns. -/
def requestLocked (m : FrameStore) (f : FrameId) (r : Request) (woken : Bool) :
    Except Abort (Option Reply × FrameStore) :=
  if woken then
    match m.wakeLocked with
    | (false, m) => .ok (some { status := .busy }, m)
    | (true, m) => m.passLocked f r
  else m.passLocked f r

/-! ## The other entry points -/

/-- `minimm_frame_create`. -/
def createFrame (m : FrameStore) (source : FrameSource) (fileBacking : FileId)
    (fileOffset : ℕ) (shared : Bool) : Status × FrameId × FrameStore :=
  match m.host.malloc with
  | (false, host) => (.outOfMemory, 0, { m with host := host })
  | (true, host) =>
    let m := { m with host := host }
    if m.destroyRequested then (.busy, 0, m)
    else if m.nextFrameId = sizeMax then (.noSpace, 0, m)
    else
      (.ok, m.nextFrameId, { m with
        frame := Function.update m.frame m.nextFrameId
          { source := source
            fileBacking := fileBacking
            fileOffset := fileOffset
            fileShared := shared }
        nextFrameId := m.nextFrameId + 1
        frames := m.nextFrameId :: m.frames
        frameCount := m.frameCount + 1 })

/-- The frame leaves the list and gives back its slots. -/
def unlinkLocked (m : FrameStore) (f : FrameId) : Except Abort FrameStore :=
  let m := { m with frames := m.frames.erase f, frameCount := m.frameCount - 1 }
  (if m.resident f then m.releaseResidentSlotLocked f else .ok m).bind
    fun m ↦ m.releaseSwapSlotLocked f

/-- The locked part of `minimm_frame_release`, taken by the last reference. -/
def releaseLocked (m : FrameStore) (f : FrameId) : Except Abort FrameStore :=
  let x := m.frame f
  let m := if x.source = .file ∧ x.fileShared ∧ x.dirty then (m.writeBackLocked f).2 else m
  if f ∈ m.frames then m.unlinkLocked f else .ok m

/-- `minimm_frame_map`. -/
def map (m : FrameStore) (f : FrameId) : Except Abort FrameStore :=
  let x := m.frame f
  if x.mappings = sizeMax then .error .mapCount
  else .ok (m.setFrame f { x with mappings := x.mappings + 1 })

/-- `minimm_frame_unmap`. -/
def unmap (m : FrameStore) (f : FrameId) : Except Abort FrameStore :=
  let x := m.frame f
  if x.mappings = 0 then .error .unmapZero
  else .ok (m.setFrame f { x with mappings := x.mappings - 1 })

/-- `minimm_frame_pin`. -/
def pin (m : FrameStore) (f : FrameId) : Except Abort FrameStore :=
  let x := m.frame f
  if x.pinCount = sizeMax then .error .pinCount
  else .ok (m.setFrame f { x with pinCount := x.pinCount + 1 })

/-- `minimm_frame_unpin`, with its silent floor. -/
def unpin (m : FrameStore) (f : FrameId) : FrameStore :=
  let x := m.frame f
  if x.pinCount ≠ 0 then m.setFrame f { x with pinCount := x.pinCount - 1 } else m

/-- `minimm_frame_try_pin_resident`. -/
def tryPinResident (m : FrameStore) (f : FrameId) : Except Abort (Bool × FrameStore) :=
  let x := m.frame f
  if x.residentSlot = none then .ok (false, m)
  else if x.transientPinCount = sizeMax then .error .transientPinCount
  else .ok (true, m.setFrame f { x with transientPinCount := x.transientPinCount + 1 })

/-- `minimm_frame_unpin_resident`. -/
def unpinResident (m : FrameStore) (f : FrameId) : Except Abort FrameStore :=
  let x := m.frame f
  if x.transientPinCount = 0 then .error .transientUnpinZero
  else .ok (m.setFrame f { x with transientPinCount := x.transientPinCount - 1 })

/-- `minimm_frame_sync`. -/
def sync (m : FrameStore) (f : FrameId) : Status × FrameStore :=
  let x := m.frame f
  if x.source = .file ∧ x.fileShared then m.writeBackLocked f else (.ok, m)

/-- `minimm_frame_mark_cold`. -/
def markCold (m : FrameStore) (f : FrameId) : FrameStore :=
  if m.resident f then m.setFrame f { m.frame f with cold := true } else m

/-- `minimm_reclaim_result_t`, with the status. -/
structure ReclaimResult where
  status : Status
  scannedCount : ℕ
  reclaimedCount : ℕ
  deriving DecidableEq, Repr

/-- The loop of `minimm_frame_store_reclaim`; the first argument is what is left
of the target. -/
def reclaimLoop : ℕ → ReclaimResult → FrameStore → Except Abort (ReclaimResult × FrameStore)
  | 0, r, m => .ok (r, m)
  | left + 1, r, m =>
    match m.selectVictimLocked none with
    | (none, scanned, m) =>
      .ok ({ r with scannedCount := sizeAddSaturating r.scannedCount scanned }, m)
    | (some victim, scanned, m) => do
        let r := { r with scannedCount := sizeAddSaturating r.scannedCount scanned }
        let (status, m) ← m.reclaimPageLocked victim
        if status = .ok then
          reclaimLoop left { r with
            reclaimedCount := counterIncrementSaturating r.reclaimedCount } m
        else return ({ r with status := status }, m)

/-- `minimm_frame_store_reclaim`. -/
def reclaim (m : FrameStore) (targetPages : ℕ) : Except Abort (ReclaimResult × FrameStore) :=
  if m.destroyRequested then .ok (⟨.busy, 0, 0⟩, m)
  else reclaimLoop targetPages ⟨.ok, 0, 0⟩ m

/-- The locked part of `minimm_frame_store_destroy`. -/
def requestDestroy (m : FrameStore) : FrameStore :=
  { m with destroyRequested := true }

/-- `minimm_file_backing_resize`. -/
def fileBackingResize (m : FrameStore) (b : FileId) (size : ℕ) : Status × FrameStore :=
  let x := m.file b
  if size > int64Max then (.invalidArgument, m)
  else if x.writebackError ≠ .ok then (x.writebackError, m)
  else
    match m.host.ftruncate with
    | (none, host) => (.ok, { m with
        host := host
        file := Function.update m.file b { x with bytes := ByteFile.truncate x.bytes size } })
    | (some e, host) => (frameStatusFromErrno e, { m with
        host := host
        file := Function.update m.file b (x.latchError (frameStatusFromErrno e)) })

/-- `minimm_file_backing_sync`. -/
def fileBackingSync (m : FrameStore) (b : FileId) : Status × FrameStore :=
  let x := m.file b
  if x.writebackError ≠ .ok then (x.writebackError, m)
  else
    match m.host.fsyncFile with
    | (none, host) => (.ok, { m with host := host })
    | (some e, host) => (frameStatusFromErrno e, { m with
        host := host
        file := Function.update m.file b (x.latchError (frameStatusFromErrno e)) })

end FrameStore

end MiniMM
