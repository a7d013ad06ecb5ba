import MiniMM.Note
import MiniMM.Vma

/-!
# Mapping backings

`mapping_backing.c`. A backing supplies the frames of a mapping: zero frames, the shared pages of
an anonymous mapping, or the pages of a note. A space binds the cookie of a mapping to a backing.
-/

namespace MiniMM

namespace Backing

def info (b : BackingId) : Code BackingInfo := .step (.backingInfo b)

/-- `minimm_mapping_backing_create`. -/
def create (note : Option NoteId) (flags : MapFlags) : Code (Status × BackingId) :=
  if flags.anonymous = note.isSome then pure (.invalidArgument, 0)
  else do
    let allocated ← Code.malloc
    if allocated = false then pure (.outOfMemory, 0)
    else
      match note with
      | none => do
        let b ← .step (.newBacking ⟨if flags.shared then .anonShared else .anonPrivate, none⟩)
        pure (.ok, b)
      | some n => do
        let status ← Note.mappingAttach n
        if status ≠ .ok then pure (status, 0)
        else do
          Note.retain n
          let b ← .step (.newBacking
            ⟨if flags.shared then .noteShared else .notePrivate, some n⟩)
          pure (.ok, b)

/-- `minimm_mapping_backing_retain`. -/
def retain (b : BackingId) : Code Unit := .step (.retainBacking b)

/-- `minimm_mapping_backing_release`. -/
def release (b : BackingId) : Code Unit := do
  let last ← .step (.dropBacking b)
  match last with
  | none => pure ()
  | some (pages, i) => do
    pages.release
    match i.note with
    | none => pure ()
    | some n => do
      Note.mappingDetach n
      Note.release n

/-- The new page of a shared anonymous backing, with the frame the cache keeps. -/
def newSharedPage : Code (Status × FrameId) := do
  let allocated ← Code.malloc
  if allocated = false then pure (.outOfMemory, 0)
  else do
    let (status, f) ← frameCreateZero
    if status ≠ .ok then pure (status, 0)
    else do
      let (status, _) ← frameEnsureResident f
      if status ≠ .ok then do
        frameRelease f
        pure (status, 0)
      else pure (.ok, f)

/-- `minimm_mapping_backing_get_frame`: the frame, and whether it was created. -/
def getFrame (b : BackingId) (offset : ℕ) : Code (Status × FrameId × Bool) :=
  if offset % pageSize ≠ 0 then pure (.invalidArgument, 0, false)
  else do
    let i ← info b
    match i.note with
    | some n => do
      let (status, f) ← Note.getFrame n offset
      pure (status, f, false)
    | none =>
      if i.kind = .anonPrivate then do
        let (status, f) ← frameCreateZero
        pure (status, f, status = .ok)
      else do
        let pages ← .step (.lockBacking b)
        match CachedPages.find offset pages with
        | some f => do
          frameRetain f
          .step (.unlockBacking b pages)
          pure (.ok, f, false)
        | none => do
          let (status, f) ← newSharedPage
          if status ≠ .ok then do
            .step (.unlockBacking b pages)
            pure (status, 0, false)
          else do
            frameRetain f
            .step (.unlockBacking b (CachedPages.insert offset f pages))
            pure (.ok, f, true)

/-- `minimm_mapping_backing_peek_frame`. -/
def peekFrame (b : BackingId) (offset : ℕ) : Code (Status × FrameId) :=
  if offset % pageSize ≠ 0 then pure (.invalidArgument, 0)
  else do
    let i ← info b
    match i.note with
    | some n => Note.peekFrame n offset
    | none =>
      if i.kind = .anonPrivate then pure (.notFound, 0)
      else do
        let pages ← .step (.lockBacking b)
        match CachedPages.find offset pages with
        | some f => do
          frameRetain f
          .step (.unlockBacking b pages)
          pure (.ok, f)
        | none => do
          .step (.unlockBacking b pages)
          pure (.notFound, 0)

end Backing

/-- `minimm_backing_kind_t` of a shared mapping. -/
def BackingKind.shared : BackingKind → Bool
  | .anonShared | .noteShared => true
  | .anonPrivate | .notePrivate => false

namespace Binding

/-- `minimm_space_binding_create`: only its allocation can fail. -/
def create : Code Status := do
  let allocated ← Code.malloc
  pure (if allocated then .ok else .outOfMemory)

/-- `minimm_space_binding_list_destroy`. -/
def listDestroy : List Binding → Code Unit
  | [] => pure ()
  | binding :: rest => do
    Backing.release binding.backing
    listDestroy rest

/-- `minimm_space_binding_find`. -/
def find (cookie : ℕ) (bindings : List Binding) : Option Binding :=
  bindings.find? fun b ↦ decide (b.cookie = cookie)

/-- `minimm_space_binding_prune`: the bindings that stay, and those removed, last first. -/
def prune (bindings : List Binding) (snapshot : VmaSnapshot) : List Binding × List Binding :=
  (bindings.filter fun b ↦ snapshot.containsCookie b.cookie,
    (bindings.filter fun b ↦ !snapshot.containsCookie b.cookie).reverse)

/-- `minimm_space_binding_list_clone`, with the copies made so far in order. -/
def listCloneFrom : List Binding → List Binding → Code (Status × List Binding)
  | [], copies => pure (.ok, copies)
  | binding :: rest, copies => do
    let allocated ← Code.malloc
    if allocated = false then do
      listDestroy copies
      pure (.outOfMemory, [])
    else do
      Backing.retain binding.backing
      listCloneFrom rest (copies ++ [binding])

def listClone (bindings : List Binding) : Code (Status × List Binding) :=
  listCloneFrom bindings []

end Binding

end MiniMM
