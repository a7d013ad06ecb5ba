import MiniMM.Types

/-!
# The state of a system and its atomic steps

A call is a program over the steps of `Op`. The locked sections of the frame store and the atomic
operations on reference counts are single steps. What a lock protects is handed to the program
when it takes the lock and put back when it releases it, so that the code under a lock works on a
value of its own. The TLB of a space stays in the system and is reached by steps, under the lock
of its space.
-/

namespace MiniMM

/-- The mutexes above the frame store. -/
inductive LockId where
  | space (i : SpaceId)
  | brk (i : SpaceId)
  | backing (b : BackingId)
  | lineage (l : LineageId)
  deriving DecidableEq, Repr

structure Sys where
  store : FrameStore
  /-- `references` of each frame. -/
  refs : FrameId → ℕ
  /-- `tlb_entries` of the system. -/
  tlbEntries : ℕ
  space : SpaceId → Space
  brk : SpaceId → Brk
  tlb : SpaceId → Tlb
  nextSpace : SpaceId
  backingInfo : BackingId → BackingInfo
  backingPages : BackingId → CachedPages
  backingRefs : BackingId → ℕ
  nextBacking : BackingId
  noteInfo : NoteId → NoteInfo
  noteSize : NoteId → ℕ
  noteRefs : NoteId → ℕ
  activeMappings : NoteId → ℕ
  nextNote : NoteId
  lineage : LineageId → Lineage
  nextLineage : LineageId
  nextFile : FileId
  held : LockId → Bool

/-- The counters of `minimm_tlb_stats_t`. -/
inductive TlbCounter where
  | hits
  | misses
  | replacements
  | invalidations
  deriving DecidableEq, Repr

/-- The accesses to the memory of a TLB. -/
inductive TlbOp : Type → Type where
  | capacity : TlbOp ℕ
  | entry (index : ℕ) : TlbOp (Option TlbEntry)
  | set (index : ℕ) (entry : Option TlbEntry) : TlbOp Unit
  | count (counter : TlbCounter) : TlbOp Unit

/-- The call sites of `minimm_frame_release`: the end of `minimm_page_table_replace_frame` gives up
a frame that a translation may still hold, the others do not. -/
inductive DropSite where
  | replaceFrame
  | other
  deriving DecidableEq, Repr

namespace Sys

/-- The atomic steps, indexed by what they return. -/
inductive Op : Type → Type 1 where
  /-- `minimm_frame_create`; the new frame has one reference. -/
  | create (source : FrameSource) (fileBacking : FileId) (fileOffset : ℕ) (shared : Bool) :
      Op (Status × FrameId)
  /-- A pass of `minimm_frame_read`, `minimm_frame_write` or `minimm_frame_ensure_resident`. -/
  | request (f : FrameId) (r : FrameStore.Request) (woken : Bool) : Op FrameStore.Reply
  /-- Any other locked section of the frame store. -/
  | store {α : Type} (o : FrameStore.Op α) : Op α
  | malloc : Op Bool
  | abort (e : Abort) : Op Unit
  /-- A loop that has not ended: no step follows. -/
  | stuck : Op Unit
  /-- The increment of `minimm_frame_retain`. -/
  | retain (f : FrameId) : Op Unit
  /-- The decrement of `minimm_frame_release`: was it the last reference? -/
  | drop (site : DropSite) (f : FrameId) : Op Bool
  | tlb {α : Type} (i : SpaceId) (o : TlbOp α) : Op α
  | lockSpace (i : SpaceId) : Op Space
  | unlockSpace (i : SpaceId) (c : Space) : Op Unit
  | lockBrk (i : SpaceId) : Op Brk
  | unlockBrk (i : SpaceId) (brk : Brk) : Op Unit
  | closing (i : SpaceId) : Op Bool
  /-- The check of `minimm_tlb_create` on the capacity that the system gives its TLBs. -/
  | tlbAvailable : Op Bool
  /-- The allocation of a space. Nobody else can name it, so its creator starts out with its
  locks. -/
  | newSpace (c : Space) (brk : Brk) : Op SpaceId
  | newBacking (info : BackingInfo) : Op BackingId
  | backingInfo (b : BackingId) : Op BackingInfo
  | retainBacking (b : BackingId) : Op Unit
  /-- The decrement of `minimm_mapping_backing_release`: the pages and the fields, if it was the
  last. -/
  | dropBacking (b : BackingId) : Op (Option (CachedPages × BackingInfo))
  | lockBacking (b : BackingId) : Op CachedPages
  | unlockBacking (b : BackingId) (pages : CachedPages) : Op Unit
  | noteInfo (n : NoteId) : Op NoteInfo
  | noteSize (n : NoteId) : Op ℕ
  | setNoteSize (n : NoteId) (size : ℕ) : Op Unit
  | activeMappings (n : NoteId) : Op ℕ
  | setActiveMappings (n : NoteId) (count : ℕ) : Op Unit
  | retainNote (n : NoteId) : Op Unit
  | dropNote (n : NoteId) : Op Bool
  /-- The allocation of a lineage, to which only its creator has access. -/
  | newLineage : Op LineageId
  /-- `minimm_note_allocate_id`, and the fields of the note that no lock protects. -/
  | newNote (info : NoteInfo) (size : ℕ) : Op (Option NoteId)
  | fileCall : Op (Option Errno)
  /-- A file of its own for a new note. -/
  | newFile (bytes : ByteFile.Bytes) : Op FileId
  | lockLineage (l : LineageId) : Op Lineage
  | unlockLineage (l : LineageId) (v : Lineage) : Op Unit

def countTlb (stats : TlbStats) : TlbCounter → TlbStats
  | .hits => { stats with hits := stats.hits + 1 }
  | .misses => { stats with misses := stats.misses + 1 }
  | .replacements => { stats with replacements := stats.replacements + 1 }
  | .invalidations => { stats with invalidations := stats.invalidations + 1 }

def execTlb (t : Tlb) : {α : Type} → TlbOp α → α × Tlb
  | _, .capacity => (t.capacity, t)
  | _, .entry index => (t.entries index, t)
  | _, .set index e => ((), { t with entries := Function.update t.entries index e })
  | _, .count counter => ((), { t with stats := countTlb t.stats counter })

/-- Take a lock, or wait for it. -/
def lock {α : Type} (s : Sys) (l : LockId) (v : α) : Prog.Outcome Abort Sys α :=
  if s.held l then .blocked else .ok v { s with held := Function.update s.held l true }

/-- The compare-and-swap loops that count references, which abort at `SIZE_MAX`. -/
def countUp (n : ℕ) (s : Sys) : Prog.Outcome Abort Sys Unit :=
  if n = sizeMax then .abort .retainCount else .ok () s

/-- A TLB of `minimm_tlb_create`. -/
def emptyTlb (capacity : ℕ) : Tlb := ⟨capacity, fun _ ↦ none, {}⟩

/-- Run one step. -/
def exec {α : Type} (s : Sys) : Op α → Prog.Outcome Abort Sys α
  | .create source b offset shared =>
    match s.store.exec (.create source b offset shared) with
    | .error e => .abort e
    | .ok (r, m) =>
      .ok r { s with
        store := m
        refs := if r.1 = .ok then Function.update s.refs r.2 1 else s.refs }
  | .request f r woken =>
    match s.store.exec (.request f r woken) with
    | .error e => .abort e
    | .ok (none, m) => .again { s with store := m }
    | .ok (some reply, m) => .ok reply { s with store := m }
  | .store o =>
    match s.store.exec o with
    | .error e => .abort e
    | .ok (r, m) => .ok r { s with store := m }
  | .malloc =>
    .ok s.store.host.malloc.1 { s with store := { s.store with host := s.store.host.malloc.2 } }
  | .abort e => .abort e
  | .stuck => .blocked
  | .retain f => countUp (s.refs f) { s with refs := Function.update s.refs f (s.refs f + 1) }
  | .drop _ f => .ok (s.refs f = 1) { s with refs := Function.update s.refs f (s.refs f - 1) }
  | .tlb i o =>
    .ok (execTlb (s.tlb i) o).1 { s with tlb := Function.update s.tlb i (execTlb (s.tlb i) o).2 }
  | .lockSpace i => s.lock (.space i) (s.space i)
  | .unlockSpace i c => .ok () { s with
      space := Function.update s.space i c
      held := Function.update s.held (.space i) false }
  | .lockBrk i => s.lock (.brk i) (s.brk i)
  | .unlockBrk i brk => .ok () { s with
      brk := Function.update s.brk i brk
      held := Function.update s.held (.brk i) false }
  | .closing i => .ok (s.space i).closing s
  | .tlbAvailable => .ok (s.tlbEntries ≠ 0) s
  | .newSpace c brk => .ok s.nextSpace { s with
      space := Function.update s.space s.nextSpace c
      brk := Function.update s.brk s.nextSpace brk
      tlb := Function.update s.tlb s.nextSpace (emptyTlb s.tlbEntries)
      held := Function.update (Function.update s.held (.space s.nextSpace) true)
        (.brk s.nextSpace) true
      nextSpace := s.nextSpace + 1 }
  | .newBacking info => .ok s.nextBacking { s with
      backingInfo := Function.update s.backingInfo s.nextBacking info
      backingPages := Function.update s.backingPages s.nextBacking []
      backingRefs := Function.update s.backingRefs s.nextBacking 1
      nextBacking := s.nextBacking + 1 }
  | .backingInfo b => .ok (s.backingInfo b) s
  | .retainBacking b => countUp (s.backingRefs b)
      { s with backingRefs := Function.update s.backingRefs b (s.backingRefs b + 1) }
  | .dropBacking b => .ok
      (if s.backingRefs b = 1 then some (s.backingPages b, s.backingInfo b) else none)
      { s with backingRefs := Function.update s.backingRefs b (s.backingRefs b - 1) }
  | .lockBacking b => s.lock (.backing b) (s.backingPages b)
  | .unlockBacking b pages => .ok () { s with
      backingPages := Function.update s.backingPages b pages
      held := Function.update s.held (.backing b) false }
  | .noteInfo n => .ok (s.noteInfo n) s
  | .noteSize n => .ok (s.noteSize n) s
  | .setNoteSize n size => .ok () { s with noteSize := Function.update s.noteSize n size }
  | .activeMappings n => .ok (s.activeMappings n) s
  | .setActiveMappings n count => .ok ()
      { s with activeMappings := Function.update s.activeMappings n count }
  | .retainNote n => countUp (s.noteRefs n)
      { s with noteRefs := Function.update s.noteRefs n (s.noteRefs n + 1) }
  | .dropNote n => .ok (s.noteRefs n = 1)
      { s with noteRefs := Function.update s.noteRefs n (s.noteRefs n - 1) }
  | .newLineage => .ok s.nextLineage { s with
      held := Function.update s.held (.lineage s.nextLineage) true
      nextLineage := s.nextLineage + 1 }
  | .newNote info size =>
    if s.nextNote = sizeMax then .ok none s
    else .ok (some s.nextNote) { s with
      noteInfo := Function.update s.noteInfo s.nextNote info
      noteSize := Function.update s.noteSize s.nextNote size
      noteRefs := Function.update s.noteRefs s.nextNote 1
      activeMappings := Function.update s.activeMappings s.nextNote 0
      nextNote := s.nextNote + 1 }
  | .fileCall =>
    .ok s.store.host.callFile.1
      { s with store := { s.store with host := s.store.host.callFile.2 } }
  | .newFile bytes => .ok s.nextFile { s with
      store := { s.store with file := Function.update s.store.file s.nextFile ⟨bytes, .ok⟩ }
      nextFile := s.nextFile + 1 }
  | .lockLineage l => s.lock (.lineage l) (s.lineage l)
  | .unlockLineage l v => .ok () { s with
      lineage := Function.update s.lineage l v
      held := Function.update s.held (.lineage l) false }

/-- The host has answered some requests for memory, and nothing else has happened. -/
def withHost (s : Sys) (host : Host) : Sys := { s with store := { s.store with host := host } }

/-- The step a thread makes when it resumes from a wait. -/
def Op.wake {α : Type} (woken : Bool) : Op α → Op α
  | .request f r _ => .request f r woken
  | o => o

/-- Steps that ask nothing of the host but memory. -/
def Op.onlyAllocates {α : Type} : Op α → Prop
  | .malloc | .retain _ | .drop .. => True
  | .store (.map _) | .store (.unmap _) | .store (.pin ..) | .store (.unpin _) => True
  | _ => False

def Op.isMalloc {α : Type} : Op α → Prop
  | .malloc => True
  | _ => False

/-- The answers that allocations may get. -/
def Op.answers (may : Bool → Prop) {α : Type} : Op α → α → Prop
  | .malloc, b => may b
  | _, _ => True

end Sys

/-- A piece of the program. -/
abbrev Code := Prog Sys.Op

namespace Code

def create (source : FrameSource) (b : FileId) (offset : ℕ) (shared : Bool) :
    Code (Status × FrameId) := .step (.create source b offset shared)

def request (f : FrameId) (r : FrameStore.Request) : Code FrameStore.Reply :=
  .step (.request f r false)

def store {α : Type} (o : FrameStore.Op α) : Code α := .step (.store o)

def malloc : Code Bool := .step .malloc

def tlb {α : Type} (i : SpaceId) (o : TlbOp α) : Code α := .step (.tlb i o)

def abort (e : Abort) : Code Unit := .step (.abort e)

/-- A conditional without an else branch. -/
def when (c : Bool) (p : Code Unit) : Code Unit := if c then p else pure ()

/-- Run a call while nobody else is running. -/
def run {α : Type} (p : Code α) (s : Sys) : Prog.Result Abort Sys α :=
  Prog.run (fun o s ↦ s.exec o) p s

/-- What the call leaves, if it ends, when nobody else is running. -/
abbrev Ends {α : Type} (p : Code α) (s : Sys) (Q : α → Sys → Prop) : Prop :=
  Prog.Ends (fun o s ↦ s.exec o) p s Q

/-- The code asks the host for nothing but memory, and what it returns satisfies `Q` whichever
allocations succeed of those that may. -/
abbrev Allocates {α : Type} (may : Bool → Prop) (p : Code α) (Q : α → Prop) : Prop :=
  Prog.Yields Sys.Op.onlyAllocates (Sys.Op.answers may) p Q

theorem Allocates.malloc {α : Type} {may : Bool → Prop} {f : Bool → Code α} {Q : α → Prop}
    (hfalse : may false → Allocates may (f false) Q) (htrue : Allocates may (f true) Q) :
    Allocates may (malloc >>= f) Q := by
  refine ⟨trivial, fun b hb ↦ ?_⟩
  cases b with
  | false => exact hfalse hb
  | true => exact htrue

theorem host_of_counting {β : Type} {m m' : FrameStore} {o : FrameStore.Op β} {b : β}
    (ho : (Sys.Op.store o).onlyAllocates) (h : m.exec o = .ok (b, m')) : m'.host = m.host := by
  cases o with
  | map _ | unmap _ | pin _ _ =>
    simp only [FrameStore.exec, FrameStore.map, FrameStore.unmap, FrameStore.pin] at h
    split at h <;> cases h
    rfl
  | unpin _ =>
    cases h
    simp only [FrameStore.unpin]
    split <;> rfl
  | _ => cases ho

theorem alloc_of_onlyAllocates {β : Type} {o : Sys.Op β} {s s' : Sys} {b : β}
    (ho : o.onlyAllocates) (h : s.exec o = .ok b s') :
    s'.store.host.alloc = s.store.host.alloc ∨
      s'.store.host.alloc = Host.rest s.store.host.alloc := by
  cases o with
  | malloc =>
    cases h
    exact .inr rfl
  | retain f =>
    simp only [Sys.exec, Sys.countUp] at h
    split at h <;> cases h
    exact .inl rfl
  | drop site f =>
    cases h
    exact .inl rfl
  | store o =>
    simp only [Sys.exec] at h
    split at h <;> cases h
    exact .inl (congrArg Host.alloc (host_of_counting ho ‹_›))
  | _ => cases ho

/-- What a run returns. An allocation fails only if the host lets one fail. -/
theorem Allocates.result {α : Type} {p : Code α} {Q : α → Prop} {s s' : Sys} {a : α}
    (h : Allocates (fun b ↦ ∃ n, s.store.host.alloc n = b) p Q) (hrun : p.run s = .done a s') :
    Q a := by
  have hgood : ∀ {β : Type} {o : Sys.Op β} {t t' : Sys} {b : β}, o.onlyAllocates →
      (∀ n, ∃ k, s.store.host.alloc k = t.store.host.alloc n) → t.exec o = .ok b t' →
      o.answers (fun b ↦ ∃ n, s.store.host.alloc n = b) b ∧
        ∀ n, ∃ k, s.store.host.alloc k = t'.store.host.alloc n := by
    intro β o t t' b ho ht hexec
    refine ⟨?_, fun n ↦ ?_⟩
    · cases o with
      | malloc =>
        cases hexec
        exact ht 0
      | _ => trivial
    · rcases alloc_of_onlyAllocates ho hexec with heq | heq <;> rw [heq]
      · exact ht n
      · exact ht (n + 1)
  exact Prog.Yields.run h hgood (fun n ↦ ⟨n, rfl⟩) hrun

/-- The same for code whose steps are all allocations. -/
abbrev Mallocs {α : Type} (may : Bool → Prop) (p : Code α) (Q : α → Prop) : Prop :=
  Prog.Yields Sys.Op.isMalloc (Sys.Op.answers may) p Q

theorem Mallocs.malloc {α : Type} {may : Bool → Prop} {f : Bool → Code α} {Q : α → Prop}
    (hfalse : may false → Mallocs may (f false) Q) (htrue : Mallocs may (f true) Q) :
    Mallocs may (malloc >>= f) Q := by
  refine ⟨trivial, fun b hb ↦ ?_⟩
  cases b with
  | false => exact hfalse hb
  | true => exact htrue

theorem Mallocs.allocates {α : Type} {may : Bool → Prop} {p : Code α} {Q : α → Prop}
    (h : Mallocs may p Q) : Allocates may p Q := by
  refine Prog.Yields.weaken h (fun {_ o} ho ↦ ?_) fun h ↦ h
  cases o with
  | malloc => trivial
  | _ => cases ho

theorem Mallocs.result {α : Type} {p : Code α} {Q : α → Prop} {s s' : Sys} {a : α}
    (h : Mallocs (fun b ↦ ∃ n, s.store.host.alloc n = b) p Q) (hrun : p.run s = .done a s') : Q a :=
  Allocates.result h.allocates hrun

theorem Allocates.seq {α β : Type} {may : Bool → Prop} {p : Code α} {f : α → Code β}
    {Q : β → Prop} (hp : Allocates may p fun _ ↦ True) (hf : ∀ a, Allocates may (f a) Q) :
    Allocates may (p >>= f) Q :=
  Prog.Yields.bind hp fun a _ ↦ hf a

/-- What the code returns satisfies `Q`, whatever its steps answer. -/
abbrev Returns {α : Type} (p : Code α) (Q : α → Prop) : Prop :=
  Prog.Yields (fun _ ↦ True) (fun _ _ ↦ True) p Q

theorem returns_true {α : Type} (p : Code α) : Returns p fun _ ↦ True := by
  induction p with
  | pure a => trivial
  | op o k ih => exact ⟨trivial, fun b _ ↦ ih b⟩

theorem Returns.seq {α β : Type} {p : Code α} {f : α → Code β} {Q : β → Prop}
    (hf : ∀ a, Returns (f a) Q) : Returns (p >>= f) Q :=
  Prog.Yields.bind (returns_true p) fun a _ ↦ hf a

theorem Allocates.returns {α : Type} {p : Code α} {Q : α → Prop}
    (h : Allocates (fun _ ↦ True) p Q) : Returns p Q := by
  refine Prog.Yields.weaken h (fun _ ↦ trivial) fun {_ o _} _ ↦ ?_
  cases o <;> trivial

theorem Returns.result {α : Type} {p : Code α} {Q : α → Prop} {s s' : Sys} {a : α}
    (h : Returns p Q) (hrun : p.run s = .done a s') : Q a := by
  have hgood : ∀ {β : Type} {o : Sys.Op β} {t t' : Sys} {b : β}, True → True →
      t.exec o = .ok b t' → True ∧ True := fun _ _ _ ↦ ⟨trivial, trivial⟩
  exact Prog.Yields.run h hgood trivial hrun

end Code

end MiniMM
