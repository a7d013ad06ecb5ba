import MiniMM.Logic.Handle
import MiniMM.PageTable.Reach
import MiniMM.Vma.Reach

/-!
# The invariant of a system

Every counter of the system is the number of its handles, in the unlocked data structures, with the
thread in view and with the other threads. What a lock protects is in order while the lock is free.
-/

namespace MiniMM

open Handle

/-! ## What the locks protect -/

/-- An entry agrees with the mapping it lies in. -/
structure PteOk (v : Vma) (pte : Pte) : Prop where
  present : pte.flags.present = true
  protection : pte.protection = PageTable.effectiveProtection v.prot pte.flags
  shared : pte.flags.shared = v.shared
  cow : pte.flags.cow = true → v.shared = false ∧ v.maxProt.writable = true

/-- What a proof is about: a thread that runs alone or among others, with or without the assumption
that no eviction comes between a copy on write and its pin. -/
structure Mode where
  alone : Bool
  prompt : Bool
  deriving DecidableEq, Repr

/-- The order of a space whose lock is free. -/
structure SpaceOk (μ : Mode) (s : Sys) (i : SpaceId) (c : Space) : Prop where
  snapshot : c.vmaSnapshot.Good
  table : ∃ m, c.pageTable.Represents m
  bound : ∀ v ∈ c.vmaSnapshot.ranges, v.mappingCookie ≠ 0 ∧
    ∃ b, Binding.find v.mappingCookie c.bindings = some b ∧
      (s.backingInfo b.backing).kind.shared = v.shared
  cookies : ∀ b ∈ c.bindings, b.cookie < c.nextMappingCookie
  nextCookie : c.nextMappingCookie ≠ 0
  base : c.mmapBase = Space.new.mmapBase
  entry : ∀ p pte, c.pageTable.pte p = some pte →
    ∃ v, c.vmaSnapshot.lookup (p * pageSize) = some v ∧ PteOk v pte
  tlb : ∀ k e, (s.tlb i).entries k = some e → c.pageTable.pte e.virtualPage = some e.translation
  locked : μ.prompt = true → ∀ p pte, c.pageTable.pte p = some pte → pte.flags.locked = true →
    s.store.resident pte.frame = true

/-- The offsets of a page list ascend. -/
def CachedPages.Sorted (pages : CachedPages) : Prop := pages.Pairwise fun p q ↦ p.1 < q.1

/-- The order of a lineage whose lock is free. -/
structure LineageOk (s : Sys) (l : LineageId) (v : Lineage) : Prop where
  nodup : v.members.Nodup
  member : ∀ n, n ∈ v.members ↔ n < s.nextNote ∧ (s.noteInfo n).lineage = l
  parent : ∀ n ∈ v.members, ∀ p, (v.body n).cowParent = some p →
    p < n ∧ p ∈ v.members ∧ n ∈ (v.body p).children ∧
      (v.body n).inheritedSize ≤ s.noteSize n ∧ (v.body n).inheritedSize ≤ s.noteSize p
  child : ∀ n ∈ v.members, ∀ k ∈ (v.body n).children,
    k ∈ v.members ∧ (v.body k).cowParent = some n
  childrenNodup : ∀ n ∈ v.members, (v.body n).children.Nodup
  sorted : ∀ n ∈ v.members, (v.body n).pages.Sorted
  page : ∀ n ∈ v.members, ∀ q ∈ (v.body n).pages,
    q.1 % pageSize = 0 ∧ q.1 + pageSize ≤ s.noteSize n
  size : ∀ n ∈ v.members, s.noteSize n % pageSize = 0

namespace Sys

/-! ## Counters and handles -/

/-- The counter behind each kind of handle. Whoever holds the lock of a backing has lent a reference
to it. -/
def count (s : Sys) : Handle → ℕ
  | .ref f => s.refs f
  | .map f => (s.store.frame f).mappings
  | .pin f => (s.store.frame f).pinCount
  | .transient f => (s.store.frame f).transientPinCount
  | .last f => if s.refs f = 0 ∧ f ∈ s.store.frames then 1 else 0
  | .lock l => if s.held l then 1 else 0
  | .backing b => s.backingRefs b - if s.held (.backing b) then 1 else 0
  | .note n => s.noteRefs n
  | .mapping n => s.activeMappings n

def tlbStored (s : Sys) : Multiset Handle := ∑ i ∈ Finset.range s.nextSpace, (s.tlb i).sites

/-- What a backing holds besides its pages. -/
def infoPart (s : Sys) (b : BackingId) : Multiset Handle :=
  if s.backingRefs b = 0 then 0 else (s.backingInfo b).sites

def infoStored (s : Sys) : Multiset Handle := ∑ b ∈ Finset.range s.nextBacking, s.infoPart b

/-- The locks that exist. -/
def locks (s : Sys) : Finset LockId :=
  (Finset.range s.nextSpace).image .space ∪ (Finset.range s.nextSpace).image .brk ∪
    (Finset.range s.nextBacking).image .backing ∪ (Finset.range s.nextLineage).image .lineage

/-- The handles in what a lock protects. -/
noncomputable def guarded (s : Sys) : LockId → Multiset Handle
  | .space i => (s.space i).sites
  | .brk _ => 0
  | .backing b => if s.backingRefs b = 0 then 0 else CachedPages.sites (s.backingPages b)
  | .lineage l => (s.lineage l).sites

/-- They are there for anybody who takes the lock. -/
noncomputable def unheldPart (s : Sys) (l : LockId) : Multiset Handle :=
  if s.held l then 0 else s.guarded l

/-- The handles in the memory of the system. -/
noncomputable def stored (s : Sys) : Multiset Handle :=
  s.tlbStored + s.infoStored + ∑ l ∈ s.locks, s.unheldPart l

/-- What a lock protects is in order. -/
def LockOk (μ : Mode) (s : Sys) : LockId → Prop
  | .space i => MiniMM.SpaceOk μ s i (s.space i)
  | .brk _ => True
  | .backing b => s.backingRefs b ≠ 0 → (s.backingPages b).Sorted
  | .lineage l => LineageOk s l (s.lineage l)

/-- A translation is at the index of its page, and every TLB has room. -/
structure TlbsOk (s : Sys) : Prop where
  entry : ∀ i k e, (s.tlb i).entries k = some e →
    k < (s.tlb i).capacity ∧ Tlb.index (s.tlb i).capacity e.virtualPage = k
  capacity : ∀ i < s.nextSpace, (s.tlb i).capacity ≠ 0

/-- What has not been made yet has no counts. -/
structure Fresh (s : Sys) : Prop where
  frame : ∀ f, s.store.nextFrameId ≤ f → s.refs f = 0 ∧ (s.store.frame f).mappings = 0 ∧
    (s.store.frame f).pinCount = 0 ∧ (s.store.frame f).transientPinCount = 0
  lock : ∀ l, l ∉ s.locks → s.held l = false
  backing : ∀ b, s.nextBacking ≤ b → s.backingRefs b = 0
  note : ∀ n, s.nextNote ≤ n → s.noteRefs n = 0 ∧ s.activeMappings n = 0
  noteLineage : ∀ n < s.nextNote, (s.noteInfo n).lineage < s.nextLineage

section Locks

variable {s : Sys}

@[simp] theorem space_mem_locks {i : SpaceId} : .space i ∈ s.locks ↔ i < s.nextSpace := by
  simp [locks]

@[simp] theorem brk_mem_locks {i : SpaceId} : .brk i ∈ s.locks ↔ i < s.nextSpace := by
  simp [locks]

@[simp] theorem backing_mem_locks {b : BackingId} : .backing b ∈ s.locks ↔ b < s.nextBacking := by
  simp [locks]

@[simp] theorem lineage_mem_locks {l : LineageId} : .lineage l ∈ s.locks ↔ l < s.nextLineage := by
  simp [locks]

end Locks

end Sys

/-- The system, the handles of the thread in view and those of the other threads. -/
structure World where
  sys : Sys
  mine : Multiset Handle
  others : Multiset Handle

structure Inv (μ : Mode) (w : World) : Prop where
  store : w.sys.store.Invariant
  tally : Tally.Tallies w.sys.count (w.sys.stored + w.mine + w.others)
  live : ∀ f, 0 < w.sys.refs f → f ∈ w.sys.store.frames
  lent : ∀ b, w.sys.held (.backing b) = true → w.sys.backingRefs b ≠ 0
  fresh : w.sys.Fresh
  tlbs : w.sys.TlbsOk
  locks : ∀ l ∈ w.sys.locks, w.sys.held l = false → w.sys.LockOk μ l

/-! ## The rules -/

/-- The handles a locked section of the store takes away. -/
def storeTake {α : Type} : FrameStore.Op α → Multiset Handle
  | .release f => {last f}
  | .unmap f => {map f}
  | .unpin f => {pin f}
  | .unpinResident f => {transient f}
  | _ => 0

/-- The handles it gives. -/
def storeGive {α : Type} : FrameStore.Op α → α → Multiset Handle
  | .map f, _ => {map f}
  | .pin _ f, _ => {pin f}
  | .tryPinResident f, pinned => if pinned = true then {transient f} else 0
  | _, _ => 0

/-- A thread may use a frame if it has a reference, or if a TLB has one that it has locked. -/
def World.Reaches (w : World) (f : FrameId) : Prop :=
  ref f ∈ w.mine ∨ ∃ i k e, lock (.space i) ∈ w.mine ∧ (w.sys.tlb i).entries k = some e ∧
    e.translation.frame = f

/-- What a section requires: the use of its frame. -/
def storeNeeds {α : Type} (w : World) : FrameStore.Op α → Prop
  | .release _ => True
  | .create .. | .request .. => False
  | o => ∀ f, o.frame? = some f → w.Reaches f

namespace Sys

/-- The handles a step takes from its thread. -/
noncomputable def take (s : Sys) {β : Type} : Op β → Multiset Handle
  | .store o => storeTake o
  | .drop _ f => {ref f}
  | .tlb _ (.set _ e) => tlbEntrySites e
  | .unlockSpace i c => {Handle.lock (.space i)} + c.sites
  | .unlockBrk i _ => {Handle.lock (.brk i)}
  | .newBacking info => info.sites
  | .dropBacking b | .lockBacking b => {backing b}
  | .unlockBacking b pages => {Handle.lock (.backing b)} + pages.sites
  | .setActiveMappings n count => if s.activeMappings n = count + 1 then {mapping n} else 0
  | .dropNote n => {note n}
  | .unlockLineage l v => {Handle.lock (.lineage l)} + v.sites
  | _ => 0

/-- The handles a step gives to its thread. -/
noncomputable def give (s : Sys) {β : Type} : Op β → β → Multiset Handle
  | .create .., r => if r.1 = .ok then {ref r.2} else 0
  | .store o, r => storeGive o r
  | .retain f, _ => {ref f}
  | .drop _ f, final => if final = true then {last f} else 0
  | .tlb i (.set k _), _ => tlbEntrySites ((s.tlb i).entries k)
  | .lockSpace i, c => {Handle.lock (.space i)} + Space.sites c
  | .lockBrk i, _ => {Handle.lock (.brk i)}
  | .newSpace .., i => {Handle.lock (.space i), Handle.lock (.brk i)}
  | .newBacking _, b => {backing b}
  | .retainBacking b, _ => {backing b}
  | .dropBacking _, r =>
    match (r : Option (CachedPages × BackingInfo)) with
    | none => 0
    | some (pages, info) => pages.sites + info.sites
  | .lockBacking b, pages => {Handle.lock (.backing b)} + CachedPages.sites pages
  | .unlockBacking b _, _ => {backing b}
  | .setActiveMappings n count, _ => if count = s.activeMappings n + 1 then {mapping n} else 0
  | .retainNote n, _ => {note n}
  | .newLineage, l => {Handle.lock (.lineage l)}
  | .newNote .., n =>
    match (n : Option NoteId) with
    | none => 0
    | some n => {note n}
  | .lockLineage l, v => {Handle.lock (.lineage l)} + Lineage.sites v
  | _, _ => 0

/-- The pin of `minimm_page_table_replace_frame` finds its frame resident. -/
def PinsResident (s : Sys) {β : Type} : Op β → Prop
  | .store (.pin .replaceFrame f) => s.store.resident f = true
  | _ => True

end Sys

/-- The locks under which a step works on memory that stays in the system. -/
def Sys.uses (s : Sys) {β : Type} : Op β → Multiset Handle
  | .tlb i _ => {Handle.lock (.space i)}
  | .newNote info _ => {Handle.lock (.lineage info.lineage)}
  | .setNoteSize n _ | .setActiveMappings n _ =>
    {Handle.lock (.lineage (s.noteInfo n).lineage)}
  | _ => 0

/-- What a thread must know before a step, besides having the handles it gives up or uses. -/
def needs (μ : Mode) (w : World) {β : Type} : Sys.Op β → Prop
  | .request f _ _ | .retain f => w.Reaches f
  | .store o => storeNeeds w o
  | .tlb i (.set k e) => k < (w.sys.tlb i).capacity ∧
      ∀ x, e = some x → Tlb.index (w.sys.tlb i).capacity x.virtualPage = k
  | .lockSpace i => .space i ∈ w.sys.locks
  | .lockBrk i => .brk i ∈ w.sys.locks
  | .unlockSpace i c => SpaceOk μ w.sys i c
  | .newSpace .. => w.sys.tlbEntries ≠ 0
  | .backingInfo b | .retainBacking b => backing b ∈ w.mine
  | .unlockBacking _ pages => pages.Sorted
  | .setActiveMappings n count => n < w.sys.nextNote ∧
      (count = w.sys.activeMappings n + 1 ∨ w.sys.activeMappings n = count + 1)
  | .retainNote n => n < w.sys.nextNote
  | .lockLineage l => .lineage l ∈ w.sys.locks
  | .unlockLineage l v => LineageOk w.sys l v
  -- a note without references has a child only if a client copies it after its release
  | .abort e => e = .noteHasChildren
  | _ => True

/-- What no step changes that somebody with the handles `x` relies on. -/
structure Keeps (x : Multiset Handle) (s s' : Sys) : Prop where
  tlb : ∀ i, lock (.space i) ∈ x → s'.tlb i = s.tlb i
  tlbEntries : s'.tlbEntries = s.tlbEntries
  resident : ∀ f, ref f ∈ x → pin f ∈ x ∨ transient f ∈ x →
    s.store.resident f = true → s'.store.resident f = true
  nextSpace : s.nextSpace ≤ s'.nextSpace
  nextBacking : s.nextBacking ≤ s'.nextBacking
  nextNote : s.nextNote ≤ s'.nextNote
  nextLineage : s.nextLineage ≤ s'.nextLineage
  backingInfo : ∀ b < s.nextBacking, s'.backingInfo b = s.backingInfo b
  noteInfo : ∀ n < s.nextNote, s'.noteInfo n = s.noteInfo n
  noteSize : ∀ n < s.nextNote, lock (.lineage (s.noteInfo n).lineage) ∈ x →
    s'.noteSize n = s.noteSize n ∧ s'.activeMappings n = s.activeMappings n
  newNote : ∀ n < s'.nextNote, s.nextNote ≤ n → lock (.lineage (s'.noteInfo n).lineage) ∉ x

namespace Keeps

variable {x y : Multiset Handle} {s s' s'' : Sys}

theorem refl : Keeps x s s :=
  ⟨fun _ _ ↦ rfl, rfl, fun _ _ _ h ↦ h, le_rfl, le_rfl, le_rfl, le_rfl, fun _ _ ↦ rfl,
    fun _ _ ↦ rfl, fun _ _ _ ↦ ⟨rfl, rfl⟩, fun _ hlt hge ↦ absurd hlt (Nat.not_lt_of_ge hge)⟩

theorem trans (h : Keeps x s s') (h' : Keeps x s' s'') : Keeps x s s'' where
  tlb i hi := (h'.tlb i hi).trans (h.tlb i hi)
  tlbEntries := h'.tlbEntries.trans h.tlbEntries
  resident f hf hp hr := h'.resident f hf hp (h.resident f hf hp hr)
  nextSpace := h.nextSpace.trans h'.nextSpace
  nextBacking := h.nextBacking.trans h'.nextBacking
  nextNote := h.nextNote.trans h'.nextNote
  nextLineage := h.nextLineage.trans h'.nextLineage
  backingInfo b hb := (h'.backingInfo b (hb.trans_le h.nextBacking)).trans (h.backingInfo b hb)
  noteInfo n hn := (h'.noteInfo n (hn.trans_le h.nextNote)).trans (h.noteInfo n hn)
  noteSize n hn hl := by
    have h1 := h.noteSize n hn hl
    have h2 := h'.noteSize n (hn.trans_le h.nextNote) (by rwa [h.noteInfo n hn])
    exact ⟨h2.1.trans h1.1, h2.2.trans h1.2⟩
  newNote n hn hge := by
    by_cases hlt : n < s'.nextNote
    · rw [h'.noteInfo n hlt]
      exact h.newNote n hlt hge
    · exact h'.newNote n hn (Nat.le_of_not_lt hlt)

theorem mono (h : Keeps y s s') (hle : x ≤ y) : Keeps x s s' where
  tlb i hi := h.tlb i (Multiset.mem_of_le hle hi)
  tlbEntries := h.tlbEntries
  resident f hf hp := h.resident f (Multiset.mem_of_le hle hf)
    (hp.imp (Multiset.mem_of_le hle) (Multiset.mem_of_le hle))
  nextSpace := h.nextSpace
  nextBacking := h.nextBacking
  nextNote := h.nextNote
  nextLineage := h.nextLineage
  backingInfo := h.backingInfo
  noteInfo := h.noteInfo
  noteSize n hn hl := h.noteSize n hn (Multiset.mem_of_le hle hl)
  newNote n hn hge hl := h.newNote n hn hge (Multiset.mem_of_le hle hl)

end Keeps

/-- What the other threads leave alone while the thread in view has its handles. -/
structure Interference (w w' : World) : Prop where
  mine : w'.mine = w.mine
  keeps : Keeps w.mine w.sys w'.sys

/-- One step of the thread in view. -/
structure Next (μ : Mode) {β : Type} (o : Sys.Op β) (w : World) (b : β) (w' : World) : Prop where
  exec : ∃ woken, w.sys.exec (o.wake woken) = .ok b w'.sys
  mine : w'.mine + w.sys.take o = w.mine + w.sys.give o b
  others : w'.others = w.others
  prompt : μ.prompt = true → w.sys.PinsResident o

/-- The rules of the game: what the others may do, what a thread must own and what a step does. -/
def rules (μ : Mode) : Prog.Rules Sys.Op World where
  rely w w' := if μ.alone then w' = w else Interference w w'
  inv := Inv μ
  legal o w := w.sys.take o + w.sys.uses o ≤ w.mine ∧ needs μ w o
  next o w b w' := Next μ o w b w'
  rely_refl w := by
    split
    · rfl
    · exact ⟨rfl, .refl⟩
  rely_trans := by
    intro a b c
    split
    · rintro rfl rfl
      rfl
    · exact fun h h' ↦ ⟨h'.mine.trans h.mine, h.keeps.trans (h.mine ▸ h'.keeps)⟩

end MiniMM
