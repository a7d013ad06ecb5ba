import MiniMM.Frame.Calls

/-!
# Notes

`note.c`. A note is a file with a cache of pages. A copy shares the lineage of its source and reads
through to it, up to its inherited size, until a page is written on either side. The functions
named `Locked` take and give back the lineage, whose lock the caller holds.
-/

namespace MiniMM

/-! ## Page lists -/

namespace CachedPages

/-- `minimm_note_find_page_link_locked`, and the test of the page it finds. -/
def find (offset : ℕ) : CachedPages → Option FrameId
  | [] => none
  | (o, f) :: rest => if o < offset then find offset rest else if o = offset then some f else none

/-- Link a page in front of the first one that does not precede it. -/
def insert (offset : ℕ) (frame : FrameId) : CachedPages → CachedPages
  | [] => [(offset, frame)]
  | (o, f) :: rest =>
    if o < offset then (o, f) :: insert offset frame rest else (offset, frame) :: (o, f) :: rest

/-- `minimm_note_detach_pages_from_locked`: what stays and what goes. -/
def detachFrom (offset : ℕ) : CachedPages → CachedPages × CachedPages
  | [] => ([], [])
  | (o, f) :: rest =>
    if o < offset then ((o, f) :: (detachFrom offset rest).1, (detachFrom offset rest).2)
    else ([], (o, f) :: rest)

/-- `minimm_note_release_pages` and `minimm_mapping_backing_release_pages`. -/
def release : CachedPages → Code Unit
  | [] => pure ()
  | (_, f) :: rest => do
    frameRelease f
    release rest

end CachedPages

/-- `minimm_note_status_from_errno`. -/
def noteStatusFromErrno : Errno → Status
  | .enomem => .outOfMemory
  | .eacces | .eperm => .permission
  | .edquot | .efbig | .emfile | .enfile | .enospc => .noSpace
  | .ebadf | .einval => .invalidArgument
  | .eoverflow | .other => .io

/-- `minimm_note_rights_are_valid`. -/
def noteRightsAreValid (rights : NoteRights) : Bool :=
  !rights.other && (!rights.edit || rights.write)

/-- `minimm_note_size_is_valid`. -/
def noteSizeIsValid (size : ℕ) : Bool := decide (size % pageSize = 0) && decide (size ≤ int64Max)

namespace Lineage

/-- A note before it has pages or relatives. -/
def newBody : NoteBody := ⟨[], none, [], 0⟩

def empty : Lineage := ⟨[], fun _ ↦ newBody⟩

def setBody (v : Lineage) (n : NoteId) (b : NoteBody) : Lineage :=
  { v with body := Function.update v.body n b }

def pages (v : Lineage) (n : NoteId) : CachedPages := (v.body n).pages

def setPages (v : Lineage) (n : NoteId) (pages : CachedPages) : Lineage :=
  v.setBody n { v.body n with pages := pages }

def addMember (v : Lineage) (n : NoteId) (b : NoteBody) : Lineage :=
  ⟨n :: v.members, Function.update v.body n b⟩

end Lineage

namespace Note

def info (n : NoteId) : Code NoteInfo := .step (.noteInfo n)

def loadSize (n : NoteId) : Code ℕ := .step (.noteSize n)

/-- `minimm_note_retain`. -/
def retain (n : NoteId) : Code Unit := .step (.retainNote n)

/-! ## The pages of a note -/

/-- Link a frame that has just been made, unless making it failed. -/
def cacheFrame (v : Lineage) (n : NoteId) (offset : ℕ) (make : Code (Status × FrameId)) :
    Code (Status × Lineage × FrameId) :=
  match (v.pages n).find offset with
  | some f => pure (.ok, v, f)
  | none => do
    let allocated ← Code.malloc
    if allocated = false then pure (.outOfMemory, v, 0)
    else do
      let (status, f) ← make
      if status ≠ .ok then pure (status, v, 0)
      else pure (.ok, v.setPages n ((v.pages n).insert offset f), f)

/-- `minimm_note_cache_backing_page_locked`. -/
def cacheBackingPageLocked (v : Lineage) (n : NoteId) (offset : ℕ) :
    Code (Status × Lineage × FrameId) :=
  cacheFrame v n offset do
    let i ← info n
    let (status, f) ← frameCreateFileBacking i.fileBacking offset true
    if status ≠ .ok then pure (status, 0)
    else do
      let (status, _) ← frameEnsureResident f
      if status ≠ .ok then do
        frameRelease f
        pure (status, 0)
      else pure (.ok, f)

/-- `minimm_note_cache_copy_locked`. -/
def cacheCopyLocked (v : Lineage) (n : NoteId) (offset : ℕ) (source : FrameId) :
    Code (Status × Lineage × FrameId) :=
  cacheFrame v n offset do
    let i ← info n
    frameCopyFile source i.fileBacking offset

/-- The walk of `minimm_note_get_read_frame_locked` from a note to its ancestors. A parent is older
than its child, so the walk ends before the fuel. -/
def readFrameFrom (offset : ℕ) : ℕ → Lineage → NoteId → Code (Status × Lineage × FrameId)
  | 0, v, _ => pure (.io, v, 0)
  | fuel + 1, v, owner =>
    match (v.pages owner).find offset with
    | some f => pure (.ok, v, f)
    | none =>
      match (v.body owner).cowParent with
      | some parent =>
        if offset < (v.body owner).inheritedSize then readFrameFrom offset fuel v parent
        else readOwn v owner
      | none => readOwn v owner
where
  readOwn (v : Lineage) (owner : NoteId) : Code (Status × Lineage × FrameId) := do
    let size ← loadSize owner
    if offset ≥ size then pure (.io, v, 0) else cacheBackingPageLocked v owner offset

/-- `minimm_note_get_read_frame_locked`. -/
def getReadFrameLocked (v : Lineage) (n : NoteId) (offset : ℕ) :
    Code (Status × Lineage × FrameId) := do
  let size ← loadSize n
  if offset % pageSize ≠ 0 ∨ offset ≥ size ∨ size - offset < pageSize then
    pure (.invalidArgument, v, 0)
  else do
    let (status, v, f) ← readFrameFrom offset (n + 1) v n
    if status ≠ .ok then pure (status, v, 0)
    else do
      frameRetain f
      pure (.ok, v, f)

/-- `minimm_note_preserve_children_locked`, over the children still to visit. -/
def preserveChildrenLocked (offset : ℕ) (snapshot : FrameId) :
    List NoteId → Lineage → Code (Status × Lineage)
  | [], v => pure (.ok, v)
  | child :: rest, v =>
    if offset < (v.body child).inheritedSize then do
      let (status, v, _) ← cacheCopyLocked v child offset snapshot
      if status ≠ .ok then pure (status, v) else preserveChildrenLocked offset snapshot rest v
    else preserveChildrenLocked offset snapshot rest v

/-- `minimm_note_get_private_frame_locked`. -/
def getPrivateFrameLocked (v : Lineage) (n : NoteId) (offset : ℕ) :
    Code (Status × Lineage × FrameId) := do
  let (status, v, snapshot) ← getReadFrameLocked v n offset
  if status ≠ .ok then pure (status, v, 0)
  else do
    let (status, v) ← preserveChildrenLocked offset snapshot (v.body n).children v
    if status ≠ .ok then do
      frameRelease snapshot
      pure (status, v, 0)
    else do
      let (status, v, f) ← cacheCopyLocked v n offset snapshot
      Code.when (status = .ok) (frameRetain f)
      frameRelease snapshot
      pure (status, v, f)

/-- `minimm_note_sync_pages_locked`. -/
def syncPagesLocked (offset length : ℕ) : CachedPages → Code Status
  | [] => pure .ok
  | (o, f) :: rest =>
    if o ≥ offset + length then pure .ok
    else if o + pageSize > offset then do
      let status ← Code.store (.sync f)
      if status ≠ .ok then pure status else syncPagesLocked offset length rest
    else syncPagesLocked offset length rest

/-! ## Truncation -/

/-- The inner loop of `minimm_note_preserve_truncated_children_locked`: the pages of one owner. -/
def preserveTruncatedPages (n : NoteId) (newSize preserveEnd visibleLimit : ℕ) :
    CachedPages → Lineage → Code (Status × Lineage)
  | [], v => pure (.ok, v)
  | (o, _) :: rest, v =>
    if o ≥ preserveEnd then pure (.ok, v)
    else if newSize ≤ o ∧ o < visibleLimit then do
      let (status, v, snapshot) ← getReadFrameLocked v n o
      if status ≠ .ok then pure (status, v)
      else do
        let (status, v) ← preserveChildrenLocked o snapshot (v.body n).children v
        frameRelease snapshot
        if status ≠ .ok then pure (status, v)
        else preserveTruncatedPages n newSize preserveEnd visibleLimit rest v
    else preserveTruncatedPages n newSize preserveEnd visibleLimit rest v

/-- The outer loop: the note and its ancestors, as far as their pages are visible. -/
def preserveTruncatedFrom (n : NoteId) (newSize preserveEnd : ℕ) :
    ℕ → NoteId → ℕ → Lineage → Code (Status × Lineage)
  | 0, _, _, v => pure (.ok, v)
  | fuel + 1, owner, visibleLimit, v =>
    if visibleLimit > newSize then do
      let (status, v) ← preserveTruncatedPages n newSize preserveEnd visibleLimit (v.pages owner) v
      if status ≠ .ok then pure (status, v)
      else
        match (v.body owner).cowParent with
        | none => pure (.ok, v)
        | some parent =>
          preserveTruncatedFrom n newSize preserveEnd fuel parent
            (min visibleLimit (v.body owner).inheritedSize) v
    else pure (.ok, v)

/-- The last loop: no child inherits more than is left. -/
def clampInherited (newSize : ℕ) : List NoteId → Lineage → Lineage
  | [], v => v
  | child :: rest, v =>
    clampInherited newSize rest
      (v.setBody child
        { v.body child with inheritedSize := min (v.body child).inheritedSize newSize })

/-- `minimm_note_preserve_truncated_children_locked`. -/
def preserveTruncatedChildrenLocked (v : Lineage) (n : NoteId) (newSize oldSize : ℕ) :
    Code (Status × Lineage) := do
  let children := (v.body n).children
  let preserveEnd := min oldSize
    (children.foldl (fun limit child ↦ max limit (v.body child).inheritedSize) newSize)
  let (status, v) ← preserveTruncatedFrom n newSize preserveEnd (n + 1) n oldSize v
  if status ≠ .ok then pure (status, v)
  else pure (.ok, clampInherited newSize (v.body n).children v)

/-! ## Making and releasing notes -/

/-- `minimm_note_adopt_fd`. A note that brings no lineage gets one of its own. -/
def adoptFd (file : FileId) (size : ℕ) (rights : NoteRights) (shared : Option LineageId)
    (external : Bool) : Code (Status × Option (NoteId × LineageId)) := do
  let allocated ← Code.malloc
  if allocated = false then pure (.outOfMemory, none)
  else do
    let duplicated ← .step .fileCall
    match duplicated with
    | some e => pure (frameStatusFromErrno e, none)
    | none => do
      let allocated ← Code.malloc
      if allocated = false then pure (.outOfMemory, none)
      else
        match shared with
        | some l => do
          let n ← .step (.newNote ⟨l, rights, file, external⟩ size)
          match n with
          | none => pure (.noSpace, none)
          | some n => pure (.ok, some (n, l))
        | none => do
          let allocated ← Code.malloc
          if allocated = false then pure (.outOfMemory, none)
          else do
            let l ← .step .newLineage
            let n ← .step (.newNote ⟨l, rights, file, external⟩ size)
            match n with
            | none => do
              .step (.unlockLineage l .empty)
              pure (.noSpace, none)
            | some n => pure (.ok, some (n, l))

/-- `minimm_note_create_temporary`. The lock of a new lineage is held on return. -/
def createTemporary (size : ℕ) (rights : NoteRights) (shared : Option LineageId) :
    Code (Status × Option (NoteId × LineageId)) :=
  if noteSizeIsValid size = false ∨ noteRightsAreValid rights = false then
    pure (.invalidArgument, none)
  else do
    let made ← .step .fileCall
    match made with
    | some e => pure (noteStatusFromErrno e, none)
    | none => do
      let unlinked ← .step .fileCall
      match unlinked with
      | some e => pure (noteStatusFromErrno e, none)
      | none => do
        let sized ← .step .fileCall
        match sized with
        | some e => pure (noteStatusFromErrno e, none)
        | none => do
          let file ← .step (.newFile fun _ ↦ 0)
          adoptFd file size rights shared false

/-- `minimm_note_create`. -/
def create (size : ℕ) (rights : NoteRights) : Code (Status × NoteId) := do
  let (status, note) ← createTemporary size rights none
  match note with
  | none => pure (status, 0)
  | some (n, l) => do
    .step (.unlockLineage l (Lineage.empty.addMember n Lineage.newBody))
    pure (status, n)

/-- `minimm_note_open_fd`, once the descriptor has passed its checks and been reopened: the note
gets a file with the bytes found there. -/
def openFd (bytes : ByteFile.Bytes) (size : ℕ) (rights : NoteRights) : Code (Status × NoteId) :=
  if noteRightsAreValid rights = false then pure (.invalidArgument, 0)
  else do
    let opened ← .step .fileCall
    match opened with
    | some e => pure (noteStatusFromErrno e, 0)
    | none =>
      if noteSizeIsValid size = false then pure (.invalidArgument, 0)
      else do
        let file ← .step (.newFile bytes)
        let (status, note) ← adoptFd file size rights none true
        match note with
        | none => pure (status, 0)
        | some (n, l) => do
          .step (.unlockLineage l (Lineage.empty.addMember n Lineage.newBody))
          pure (status, n)

/-- Unlink a note that nobody refers to any more from its parent. -/
def unlinkLocked (v : Lineage) (n : NoteId) : Code Lineage :=
  match (v.body n).cowParent with
  | none => pure v
  | some parent => do
    Code.when (!(v.body parent).children.contains n) (Code.abort .noteNotLinked)
    let v := v.setBody parent
      { v.body parent with children := (v.body parent).children.erase n }
    pure (v.setBody n { v.body n with cowParent := none })

/-- `minimm_note_release`. A parent is older than its child, so the cascade ends before the
fuel. -/
def releaseFrom : ℕ → NoteId → Code Unit
  | 0, _ => pure ()
  | fuel + 1, n => do
    let last ← .step (.dropNote n)
    if last then do
      let i ← info n
      let v ← .step (.lockLineage i.lineage)
      Code.when (!(v.body n).children.isEmpty) (Code.abort .noteHasChildren)
      let parent := (v.body n).cowParent
      let v ← unlinkLocked v n
      let size ← loadSize n
      let _ ← syncPagesLocked 0 size (v.pages n)
      let pages := v.pages n
      .step (.unlockLineage i.lineage (v.setPages n []))
      pages.release
      match parent with
      | none => pure ()
      | some parent => releaseFrom fuel parent
    else pure ()

def release (n : NoteId) : Code Unit := releaseFrom (n + 1) n

/-- The loop of `minimm_note_copy_external_locked`, one page a round. The two notes have different
lineages. -/
def copyExternalLocked (source copy : NoteId) :
    ℕ → ℕ → Lineage → Lineage → Code (Status × Lineage × Lineage)
  | 0, _, v, u => pure (.ok, v, u)
  | pages + 1, offset, v, u => do
    let (status, v, f) ← getReadFrameLocked v source offset
    if status ≠ .ok then pure (status, v, u)
    else do
      let (status, u, _) ← cacheCopyLocked u copy offset f
      frameRelease f
      if status ≠ .ok then pure (status, v, u)
      else copyExternalLocked source copy pages (offset + pageSize) v u

/-- `minimm_note_copy`. -/
def copy (source : NoteId) (rights : NoteRights) : Code (Status × NoteId) :=
  if noteRightsAreValid rights = false then pure (.invalidArgument, 0)
  else do
    let i ← info source
    if i.rights.read = false then pure (.permission, 0)
    else do
      let v ← .step (.lockLineage i.lineage)
      let active ← .step (.activeMappings source)
      if active ≠ 0 then do
        .step (.unlockLineage i.lineage v)
        pure (.busy, 0)
      else do
        let size ← loadSize source
        let (status, made) ← createTemporary size rights
          (if i.externalBacking then none else some i.lineage)
        match made with
        | none => do
          .step (.unlockLineage i.lineage v)
          pure (status, 0)
        | some (n, l) =>
          if i.externalBacking then do
            let (status, v, u) ← copyExternalLocked source n (size / pageSize) 0 v
              (Lineage.empty.addMember n Lineage.newBody)
            .step (.unlockLineage l u)
            .step (.unlockLineage i.lineage v)
            if status ≠ .ok then do
              release n
              pure (status, 0)
            else pure (.ok, n)
          else do
            let v := v.addMember n ⟨[], some source, [], size⟩
            let v := v.setBody source
              { v.body source with children := n :: (v.body source).children }
            retain source
            .step (.unlockLineage i.lineage v)
            pure (.ok, n)

/-! ## Calls on notes -/

/-- `minimm_note_resize`. -/
def resize (n : NoteId) (size : ℕ) : Code Status :=
  if noteSizeIsValid size = false then pure .invalidArgument
  else do
    let i ← info n
    if i.rights.resize = false then pure .permission
    else do
      let v ← .step (.lockLineage i.lineage)
      let oldSize ← loadSize n
      let active ← .step (.activeMappings n)
      if active ≠ 0 ∧ size < oldSize then do
        .step (.unlockLineage i.lineage v)
        pure .busy
      else do
        let (status, v) ← resizePrepare v n size oldSize
        if status ≠ .ok then do
          .step (.unlockLineage i.lineage v)
          pure status
        else do
          let status ← resizeFile i.fileBacking size oldSize
          if status ≠ .ok then do
            .step (.unlockLineage i.lineage v)
            pure status
          else do
            .step (.setNoteSize n size)
            let v := v.setBody n
              { v.body n with inheritedSize := min (v.body n).inheritedSize size }
            let (kept, detached) :=
              if size < oldSize then (v.pages n).detachFrom size else (v.pages n, [])
            .step (.unlockLineage i.lineage (v.setPages n kept))
            detached.release
            pure .ok
where
  /-- Before a note shrinks its children get their pages and its own pages are written back. -/
  resizePrepare (v : Lineage) (n : NoteId) (size oldSize : ℕ) : Code (Status × Lineage) :=
    if size < oldSize then do
      let (status, v) ← preserveTruncatedChildrenLocked v n size oldSize
      if status ≠ .ok then pure (status, v)
      else do
        let status ← syncPagesLocked 0 oldSize (v.pages n)
        pure (status, v)
    else pure (.ok, v)
  resizeFile (file : FileId) (size oldSize : ℕ) : Code Status :=
    if size ≠ oldSize then Code.store (.fileBackingResize file size) else pure .ok

/-- `minimm_note_validate_io`, for a buffer of `length` bytes. -/
def validateIo (n : NoteId) (offset length : ℕ) (right : NoteRights → Bool) : Code Status := do
  let i ← info n
  if right i.rights = false then pure .permission
  else do
    let size ← loadSize n
    pure (if offset > size ∨ length > size - offset then .invalidArgument else .ok)

/-- The bytes of the chunk at `current`: to the end of the page or of the buffer. -/
def chunkLength (current remaining : ℕ) : ℕ := min remaining (pageSize - current % pageSize)

/-- The loop of `minimm_note_pread`: `fuel` bounds the chunks. -/
def preadLoop (n : NoteId) (offset length : ℕ) :
    ℕ → Lineage → List UInt8 → Code (Status × Lineage × List UInt8)
  | 0, v, bytes => pure (.ok, v, bytes)
  | fuel + 1, v, bytes =>
    if bytes.length < length then do
      let current := offset + bytes.length
      let within := current % pageSize
      let (status, v, f) ← getReadFrameLocked v n (current - within)
      if status ≠ .ok then pure (status, v, bytes)
      else do
        let (status, data) ← frameRead f within (chunkLength current (length - bytes.length))
        frameRelease f
        if status ≠ .ok then pure (status, v, bytes)
        else preadLoop n offset length fuel v (bytes ++ data)
    else pure (.ok, v, bytes)

/-- `minimm_note_pread`; the number of completed bytes is the length of what is returned. -/
def pread (n : NoteId) (offset length : ℕ) : Code (Status × List UInt8) := do
  let status ← validateIo n offset length NoteRights.read
  if status ≠ .ok ∨ length = 0 then pure (status, [])
  else do
    let i ← info n
    let v ← .step (.lockLineage i.lineage)
    let size ← loadSize n
    if offset > size ∨ length > size - offset then do
      .step (.unlockLineage i.lineage v)
      pure (.invalidArgument, [])
    else do
      let (status, v, bytes) ← preadLoop n offset length length v []
      .step (.unlockLineage i.lineage v)
      pure (status, bytes)

/-- The loop of `minimm_note_pwrite`, over the bytes still to write. -/
def pwriteLoop (n : NoteId) (offset : ℕ) (source : List UInt8) :
    ℕ → Lineage → ℕ → Code (Status × Lineage × ℕ)
  | 0, v, completed => pure (.ok, v, completed)
  | fuel + 1, v, completed =>
    if completed < source.length then do
      let current := offset + completed
      let within := current % pageSize
      let chunk := chunkLength current (source.length - completed)
      let (status, v, f) ← getPrivateFrameLocked v n (current - within)
      if status ≠ .ok then pure (status, v, completed)
      else do
        let status ← frameWrite f within ((source.drop completed).take chunk)
        frameRelease f
        if status ≠ .ok then pure (status, v, completed)
        else pwriteLoop n offset source fuel v (completed + chunk)
    else pure (.ok, v, completed)

/-- `minimm_note_pwrite`. -/
def pwrite (n : NoteId) (offset : ℕ) (source : List UInt8) : Code (Status × ℕ) := do
  let status ← validateIo n offset source.length NoteRights.write
  if status ≠ .ok ∨ source.length = 0 then pure (status, 0)
  else do
    let i ← info n
    let v ← .step (.lockLineage i.lineage)
    let size ← loadSize n
    if offset > size ∨ source.length > size - offset then do
      .step (.unlockLineage i.lineage v)
      pure (.invalidArgument, 0)
    else do
      let (status, v, completed) ← pwriteLoop n offset source source.length v 0
      .step (.unlockLineage i.lineage v)
      pure (status, completed)

/-- `minimm_note_pedit`. -/
def pedit (n : NoteId) (offset : ℕ) (source : List UInt8) : Code (Status × ℕ) := do
  let i ← info n
  if (i.rights.write && i.rights.edit) = false then pure (.permission, 0)
  else pwrite n offset source

/-- `minimm_note_flush`. -/
def flush (n : NoteId) : Code Status := do
  let i ← info n
  let v ← .step (.lockLineage i.lineage)
  let size ← loadSize n
  let status ← syncPagesLocked 0 size (v.pages n)
  if status ≠ .ok then do
    .step (.unlockLineage i.lineage v)
    pure status
  else do
    let status ← Code.store (.fileBackingSync i.fileBacking)
    .step (.unlockLineage i.lineage v)
    pure status

/-- `minimm_note_mapping_attach`. -/
def mappingAttach (n : NoteId) : Code Status := do
  let i ← info n
  let v ← .step (.lockLineage i.lineage)
  let active ← .step (.activeMappings n)
  if active = sizeMax then do
    .step (.unlockLineage i.lineage v)
    pure .noSpace
  else do
    .step (.setActiveMappings n (active + 1))
    .step (.unlockLineage i.lineage v)
    pure .ok

/-- `minimm_note_mapping_detach`. -/
def mappingDetach (n : NoteId) : Code Unit := do
  let i ← info n
  let v ← .step (.lockLineage i.lineage)
  let active ← .step (.activeMappings n)
  Code.when (active = 0) (Code.abort .detachZero)
  .step (.setActiveMappings n (active - 1))
  .step (.unlockLineage i.lineage v)

/-- `minimm_note_get_frame`. -/
def getFrame (n : NoteId) (offset : ℕ) : Code (Status × FrameId) := do
  let i ← info n
  let v ← .step (.lockLineage i.lineage)
  let (status, v, f) ← getPrivateFrameLocked v n offset
  .step (.unlockLineage i.lineage v)
  pure (status, f)

/-- The walk of `minimm_note_peek_frame`. -/
def peekFrom (offset : ℕ) : ℕ → Lineage → NoteId → Option FrameId
  | 0, _, _ => none
  | fuel + 1, v, owner =>
    match (v.pages owner).find offset with
    | some f => some f
    | none =>
      match (v.body owner).cowParent with
      | none => none
      | some parent =>
        if offset ≥ (v.body owner).inheritedSize then none else peekFrom offset fuel v parent

/-- `minimm_note_peek_frame`. -/
def peekFrame (n : NoteId) (offset : ℕ) : Code (Status × FrameId) :=
  if offset % pageSize ≠ 0 then pure (.invalidArgument, 0)
  else do
    let i ← info n
    let v ← .step (.lockLineage i.lineage)
    let size ← loadSize n
    if offset ≥ size ∨ size - offset < pageSize then do
      .step (.unlockLineage i.lineage v)
      pure (.invalidArgument, 0)
    else
      match peekFrom offset (n + 1) v n with
      | none => do
        .step (.unlockLineage i.lineage v)
        pure (.notFound, 0)
      | some f => do
        frameRetain f
        .step (.unlockLineage i.lineage v)
        pure (.ok, f)

/-- `minimm_note_sync_range`. -/
def syncRange (n : NoteId) (offset length : ℕ) : Code Status :=
  if length = 0 ∨ offset % pageSize ≠ 0 ∨ length % pageSize ≠ 0 then pure .invalidArgument
  else do
    let i ← info n
    let v ← .step (.lockLineage i.lineage)
    let size ← loadSize n
    if offset > size ∨ length > size - offset then do
      .step (.unlockLineage i.lineage v)
      pure .invalidArgument
    else do
      let status ← syncPagesLocked offset length (v.pages n)
      if status ≠ .ok then do
        .step (.unlockLineage i.lineage v)
        pure status
      else do
        let status ← Code.store (.fileBackingSync i.fileBacking)
        .step (.unlockLineage i.lineage v)
        pure status

end Note

end MiniMM
