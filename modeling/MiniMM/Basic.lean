import MiniMM.Lib.ByteFile

/-!
# Statuses, pages and the host

The values every part of the memory manager shares, and the host it runs on:
the allocator and the file system calls, of which the model keeps only the
outcomes.
-/

namespace MiniMM

/-- `minimm_status_t`. -/
inductive Status where
  | ok
  | invalidArgument
  | outOfMemory
  | noSpace
  | io
  | busy
  | notFound
  | permission
  | addressInUse
  | unsupported
  deriving DecidableEq, Repr

/-- `MINIMM_PAGE_SIZE`. -/
def pageSize : ℕ := 4096

/-- `SIZE_MAX`, which is also `UINT64_MAX`. -/
def sizeMax : ℕ := 2 ^ 64 - 1

/-- `INT64_MAX`, the largest file offset. -/
def int64Max : ℕ := 2 ^ 63 - 1

/-- The bytes of one page. -/
abbrev Page := ByteFile.Block pageSize

/-- The errors of the host that the manager tells apart. -/
inductive Errno where
  | enomem
  | edquot
  | efbig
  | emfile
  | enfile
  | enospc
  | eoverflow
  | ebadf
  | einval
  | eacces
  | eperm
  | other
  deriving DecidableEq, Repr

/-- `minimm_frame_status_from_errno`. -/
def frameStatusFromErrno : Errno → Status
  | .enomem => .outOfMemory
  | .edquot | .efbig | .emfile | .enfile | .enospc | .eoverflow => .noSpace
  | .ebadf | .einval => .invalidArgument
  | .eacces | .eperm | .other => .io

theorem frameStatusFromErrno_ne_ok (e : Errno) : frameStatusFromErrno e ≠ .ok := by
  cases e <;> simp [frameStatusFromErrno]

/-- The outcomes of the host calls still to come, one stream for each kind of
call.  A page write that fails may have written the first bytes. -/
structure Host where
  alloc : ℕ → Bool
  pageRead : ℕ → Bool
  pageWrite : ℕ → Option ℕ
  truncate : ℕ → Option Errno
  fsync : ℕ → Option Errno
  condWait : ℕ → Bool
  fileCall : ℕ → Option Errno

namespace Host

/-- What remains of a stream after its first outcome. -/
def rest {α : Type*} (stream : ℕ → α) : ℕ → α :=
  fun n ↦ stream (n + 1)

/-- `malloc` or `calloc`. -/
def malloc (h : Host) : Bool × Host :=
  (h.alloc 0, { h with alloc := rest h.alloc })

/-- The `pread` loop of one page. -/
def preadPage (h : Host) : Bool × Host :=
  (h.pageRead 0, { h with pageRead := rest h.pageRead })

/-- The `pwrite` loop of one page: `none` is success, `some k` a failure after
`k` bytes. -/
def pwritePage (h : Host) : Option ℕ × Host :=
  (h.pageWrite 0, { h with pageWrite := rest h.pageWrite })

/-- The `ftruncate` loop. -/
def ftruncate (h : Host) : Option Errno × Host :=
  (h.truncate 0, { h with truncate := rest h.truncate })

/-- The `fsync` loop. -/
def fsyncFile (h : Host) : Option Errno × Host :=
  (h.fsync 0, { h with fsync := rest h.fsync })

/-- The status of `pthread_cond_wait`. -/
def wait (h : Host) : Bool × Host :=
  (h.condWait 0, { h with condWait := rest h.condWait })

/-- Any other call on files: `mkostemp`, `unlink`, `dup`. -/
def callFile (h : Host) : Option Errno × Host :=
  (h.fileCall 0, { h with fileCall := rest h.fileCall })

/-- A host on which every call succeeds. -/
def reliable : Host where
  alloc := fun _ ↦ true
  pageRead := fun _ ↦ true
  pageWrite := fun _ ↦ none
  truncate := fun _ ↦ none
  fsync := fun _ ↦ none
  condWait := fun _ ↦ true
  fileCall := fun _ ↦ none

end Host

/-- `minimm_frame_counter_increment_saturating`. -/
def counterIncrementSaturating (counter : ℕ) : ℕ :=
  if counter ≠ sizeMax then counter + 1 else counter

/-- `minimm_frame_size_add_saturating`. -/
def sizeAddSaturating (value increment : ℕ) : ℕ :=
  if increment > sizeMax - value then sizeMax else value + increment

theorem counterIncrementSaturating_le {counter : ℕ} (h : counter ≤ sizeMax) :
    counterIncrementSaturating counter ≤ sizeMax := by
  unfold counterIncrementSaturating
  split <;> omega

theorem le_counterIncrementSaturating (counter : ℕ) :
    counter ≤ counterIncrementSaturating counter := by
  unfold counterIncrementSaturating
  split <;> omega

theorem counterIncrementSaturating_mono {a b : ℕ} (h : a ≤ b) (hb : b ≤ sizeMax) :
    counterIncrementSaturating a ≤ counterIncrementSaturating b := by
  unfold counterIncrementSaturating
  split <;> split <;> omega

/-- The places where the manager calls `abort`. -/
inductive Abort where
  | residentSlot
  | swapSlotCount
  | waiterCount
  | mapCount
  | unmapZero
  | pinCount
  | transientPinCount
  | transientUnpinZero
  | retainCount
  | noteHasChildren
  | noteNotLinked
  | detachZero
  deriving DecidableEq, Repr

end MiniMM
