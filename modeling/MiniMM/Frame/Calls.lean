import MiniMM.System

/-!
# Calls into the frame store

The functions of `frame.c` that take more than one step: they count references outside the lock of
the store, or take the lock several times.
-/

namespace MiniMM

/-- `minimm_frame_retain`. -/
def frameRetain (f : FrameId) : Code Unit := .step (.retain f)

/-- `minimm_frame_release` of a frame that is not null. -/
def frameReleaseAt (site : DropSite) (f : FrameId) : Code Unit := do
  let last ← .step (.drop site f)
  Code.when last (Code.store (.release f))

def frameRelease (f : FrameId) : Code Unit := frameReleaseAt .other f

/-- `minimm_frame_ensure_resident`. -/
def frameEnsureResident (f : FrameId) : Code (Status × Bool) := do
  let reply ← Code.request f .ensureResident
  pure (reply.status, reply.pagedIn)

/-- `minimm_frame_read`. -/
def frameRead (f : FrameId) (offset length : ℕ) : Code (Status × List UInt8) := do
  let reply ← Code.request f (.read offset length)
  pure (reply.status, reply.data)

/-- `minimm_frame_write`. -/
def frameWrite (f : FrameId) (offset : ℕ) (data : List UInt8) : Code Status := do
  let reply ← Code.request f (.write offset data)
  pure reply.status

/-- `minimm_frame_create_zero`. -/
def frameCreateZero : Code (Status × FrameId) := Code.create .zero 0 0 false

/-- `minimm_frame_create_file_backing`. -/
def frameCreateFileBacking (b : FileId) (fileOffset : ℕ) (shared : Bool) :
    Code (Status × FrameId) :=
  Code.create .file b fileOffset shared

/-- The common part of `minimm_frame_copy` and `minimm_frame_copy_file`: read the source, make the
copy, fill it. -/
def frameCopyInto (source : FrameId) (make : Code (Status × FrameId)) :
    Code (Status × FrameId) := do
  let (status, data) ← frameRead source 0 pageSize
  if status ≠ .ok then pure (status, 0)
  else do
    let (status, copy) ← make
    if status ≠ .ok then pure (status, 0)
    else do
      let status ← frameWrite copy 0 data
      if status ≠ .ok then do
        frameRelease copy
        pure (status, 0)
      else pure (.ok, copy)

/-- `minimm_frame_copy`. -/
def frameCopy (source : FrameId) : Code (Status × FrameId) := frameCopyInto source frameCreateZero

/-- `minimm_frame_copy_file`. -/
def frameCopyFile (source : FrameId) (b : FileId) (fileOffset : ℕ) : Code (Status × FrameId) :=
  frameCopyInto source (frameCreateFileBacking b fileOffset true)

end MiniMM
