import MiniMM.Lib.Tally
import MiniMM.Space

/-!
# Handles

A handle is the right to one unit of a counter: a reference, a mapping, a pin, a lock. Data
structures and threads hold them. What a data structure holds is a function of its contents, its
`sites`.
-/

namespace MiniMM

inductive Handle where
  | ref (f : FrameId)
  | map (f : FrameId)
  | pin (f : FrameId)
  | transient (f : FrameId)
  /-- The duty to release a frame whose last reference is gone. -/
  | last (f : FrameId)
  | lock (l : LockId)
  | backing (b : BackingId)
  | note (n : NoteId)
  /-- One of the `active_mappings` of a note. -/
  | mapping (n : NoteId)
  deriving DecidableEq, Repr

open Handle

/-! ## Page tables and TLBs -/

def Pte.sites (pte : Pte) : Multiset Handle :=
  {ref pte.frame, map pte.frame} + if pte.flags.locked then {pin pte.frame} else 0

def entrySites : Option Pte → Multiset Handle
  | none => 0
  | some pte => pte.sites

theorem exists_keyCount : ∃ k : ℕ, k = pageTableEntries ^ 4 := ⟨_, rfl⟩

/-- The number of keys of the radix tree of a page table, which no evaluation is to unfold. -/
noncomputable def keyCount : ℕ := exists_keyCount.choose

theorem keyCount_eq : keyCount = pageTableEntries ^ 4 := exists_keyCount.choose_spec

namespace PageTable

/-- The entry of a page number. -/
noncomputable def pte (t : PageTable) (page : ℕ) : Option Pte :=
  if page < keyCount then t.root.get 4 page else none

@[irreducible] noncomputable def sites (t : PageTable) : Multiset Handle :=
  ∑ p ∈ Finset.range keyCount, entrySites (t.pte p)

theorem sites_eq (t : PageTable) :
    t.sites = ∑ p ∈ Finset.range keyCount, entrySites (t.pte p) := by
  unfold PageTable.sites
  rfl

/-- The tables hold the same entries. -/
def Same (t t' : PageTable) : Prop := ∀ p, t'.pte p = t.pte p

theorem Same.sites {t t' : PageTable} (h : Same t t') : t'.sites = t.sites := by
  rw [sites_eq, sites_eq]
  exact Finset.sum_congr rfl fun p _ ↦ congrArg entrySites (h p)

@[simp] theorem pte_empty (p : ℕ) : empty.pte p = none := by
  simp [pte, empty]

@[simp] theorem sites_empty : empty.sites = 0 := by
  simp [sites_eq, entrySites]

/-- `t'` differs from `t` in the entry of one page. -/
structure Changed (t t' : PageTable) (page : ℕ) (entry : Option Pte) : Prop where
  self : t'.pte page = entry
  others : ∀ p, p ≠ page → t'.pte p = t.pte p

theorem Changed.sites {t t' : PageTable} {page : ℕ} {entry : Option Pte}
    (h : Changed t t' page entry) (hp : page < keyCount) :
    t'.sites + entrySites (t.pte page) = t.sites + entrySites entry := by
  rw [← h.self, sites_eq, sites_eq]
  exact Tally.sum_change (f := fun p ↦ entrySites (t'.pte p)) (Finset.mem_range.2 hp)
    fun p hne ↦ congrArg entrySites (h.others p hne)

theorem entrySites_le {t : PageTable} {p : ℕ} (hp : p < keyCount) :
    entrySites (t.pte p) ≤ t.sites := by
  rw [sites_eq]
  exact Tally.le_sum (f := fun p ↦ entrySites (t.pte p)) (Finset.mem_range.2 hp)

end PageTable

def tlbEntrySites : Option TlbEntry → Multiset Handle
  | none => 0
  | some e => {ref e.translation.frame}

def Tlb.sites (t : Tlb) : Multiset Handle :=
  ∑ k ∈ Finset.range t.capacity, tlbEntrySites (t.entries k)

/-! ## Spaces, backings and notes -/

def bindingSites (bindings : List Binding) : Multiset Handle :=
  (bindings.map fun b ↦ backing b.backing : List Handle)

noncomputable def Space.sites (c : Space) : Multiset Handle := c.pageTable.sites +
    bindingSites c.bindings

def CachedPages.sites (pages : CachedPages) : Multiset Handle :=
  (pages.map fun p ↦ ref p.2 : List Handle)

/-- A backing of a note keeps the note and counts as one of its mappings. -/
def BackingInfo.sites (i : BackingInfo) : Multiset Handle :=
  match i.note with
  | none => 0
  | some n => {Handle.note n, mapping n}

def parentSites : Option NoteId → Multiset Handle
  | none => 0
  | some n => {note n}

def NoteBody.sites (b : NoteBody) : Multiset Handle :=
  CachedPages.sites b.pages + parentSites b.cowParent

def Lineage.sites (v : Lineage) : Multiset Handle := (v.members.map fun n ↦ (v.body n).sites).sum

@[simp] theorem bindingSites_nil : bindingSites [] = 0 := rfl

@[simp] theorem bindingSites_cons (b : Binding) (bs : List Binding) :
    bindingSites (b :: bs) = {backing b.backing} + bindingSites bs := rfl

@[simp] theorem CachedPages.sites_nil : CachedPages.sites [] = 0 := rfl

@[simp] theorem CachedPages.sites_cons (o : ℕ) (f : FrameId) (pages : CachedPages) :
    CachedPages.sites ((o, f) :: pages) = {ref f} + CachedPages.sites pages := rfl

theorem Space.sites_new : Space.new.sites = 0 := by
  simp [Space.sites, Space.new]

theorem Space.sites_closed (c : Space) : c.closed.sites = 0 := by
  simp [Space.sites, Space.closed]

end MiniMM
