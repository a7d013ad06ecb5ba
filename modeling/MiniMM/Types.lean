import MiniMM.Frame.Step
import MiniMM.Lib.Radix

/-!
# The data of a system

Masks are records of booleans. A record has a field for each named bit, and where a caller may
pass anything, one more field for the bits outside the named ones.
-/

namespace MiniMM

abbrev SpaceId := ℕ
abbrev BackingId := ℕ
abbrev NoteId := ℕ
abbrev LineageId := ℕ

/-- `MINIMM_USER_ADDRESS_LIMIT`. -/
def userAddressLimit : ℕ := 2 ^ 47

/-- `MINIMM_ADDRESS_AUTO`. -/
def addressAuto : ℕ := sizeMax

/-! ## Masks -/

/-- `minimm_prot_t`. -/
structure Prot where
  read : Bool := false
  write : Bool := false
  edit : Bool := false
  exec : Bool := false
  other : Bool := false
  deriving DecidableEq, Repr

namespace Prot

/-- `MINIMM_PROT_NONE`. -/
def none : Prot := {}

/-- `(protection & (WRITE | EDIT)) != 0`. -/
def writable (p : Prot) : Bool := p.write || p.edit

/-- `(p & ~max) == 0`. -/
def within (p max : Prot) : Bool :=
  (!p.read || max.read) && (!p.write || max.write) && (!p.edit || max.edit) &&
    (!p.exec || max.exec) && (!p.other || max.other)

/-- `p | q`. -/
def union (p q : Prot) : Prot where
  read := p.read || q.read
  write := p.write || q.write
  edit := p.edit || q.edit
  exec := p.exec || q.exec
  other := p.other || q.other

/-- `p & ~(WRITE | EDIT)`. -/
def readOnly (p : Prot) : Prot := { p with write := false, edit := false }

/-- `minimm_mapping_protection_is_valid` and `minimm_vma_protection_is_valid`. -/
def isValid (p : Prot) : Bool := !p.other && (!p.edit || p.write)

end Prot

/-- `minimm_access_t`; `invalid` stands for every mask that is not exactly one of the four. -/
inductive Access where
  | read
  | write
  | edit
  | execute
  | invalid
  deriving DecidableEq, Repr

/-- `minimm_fault_access_is_allowed`. -/
def faultAccessIsAllowed (p : Prot) : Access → Bool
  | .read => p.read
  | .write => p.write
  | .edit => p.write && p.edit
  | .execute | .invalid => p.exec

/-- `minimm_pte_flags_t`. -/
structure PteFlags where
  present : Bool := false
  cow : Bool := false
  shared : Bool := false
  accessed : Bool := false
  dirty : Bool := false
  locked : Bool := false
  deriving DecidableEq, Repr

namespace PteFlags

/-- `(flags | set) & ~clear`. -/
def update (flags set clear : PteFlags) : PteFlags where
  present := (flags.present || set.present) && !clear.present
  cow := (flags.cow || set.cow) && !clear.cow
  shared := (flags.shared || set.shared) && !clear.shared
  accessed := (flags.accessed || set.accessed) && !clear.accessed
  dirty := (flags.dirty || set.dirty) && !clear.dirty
  locked := (flags.locked || set.locked) && !clear.locked

/-- `(flags & set) == set`. -/
def includes (flags set : PteFlags) : Bool :=
  (!set.present || flags.present) && (!set.cow || flags.cow) && (!set.shared || flags.shared) &&
    (!set.accessed || flags.accessed) && (!set.dirty || flags.dirty) &&
    (!set.locked || flags.locked)

/-- `(flags & other) != 0`. -/
def meets (flags other : PteFlags) : Bool :=
  (flags.present && other.present) || (flags.cow && other.cow) || (flags.shared && other.shared) ||
    (flags.accessed && other.accessed) || (flags.dirty && other.dirty) ||
    (flags.locked && other.locked)

end PteFlags

/-- `minimm_map_flags_t`. -/
structure MapFlags where
  shared : Bool := false
  «private» : Bool := false
  fixed : Bool := false
  fixedNoreplace : Bool := false
  anonymous : Bool := false
  populate : Bool := false
  other : Bool := false
  deriving DecidableEq, Repr

/-- `minimm_note_rights_t`. -/
structure NoteRights where
  read : Bool := false
  write : Bool := false
  edit : Bool := false
  share : Bool := false
  resize : Bool := false
  other : Bool := false
  deriving DecidableEq, Repr

/-! ## Page tables and TLBs -/

/-- `minimm_pte_t`. -/
structure Pte where
  frame : FrameId
  protection : Prot
  flags : PteFlags
  deriving DecidableEq, Repr

/-- `MINIMM_PAGE_TABLE_ENTRIES`. -/
abbrev pageTableEntries : ℕ := 512

instance : NeZero pageTableEntries := ⟨by decide⟩

/-- `minimm_page_table_t`. A node of the source at level `n` is a tree of height `n + 1`, and the
key of a page is its number. -/
structure PageTable where
  root : Radix pageTableEntries Pte 4
  mappingCount : ℕ
  generation : ℕ

/-- A valid `minimm_tlb_entry_t`: the frame of an entry that is not valid is null. -/
structure TlbEntry where
  virtualPage : ℕ
  translation : Pte
  deriving DecidableEq, Repr

/-- `minimm_tlb_stats_t`. -/
structure TlbStats where
  hits : ℕ := 0
  misses : ℕ := 0
  replacements : ℕ := 0
  invalidations : ℕ := 0
  deriving DecidableEq, Repr

/-- `minimm_tlb_t`. -/
structure Tlb where
  capacity : ℕ
  entries : ℕ → Option TlbEntry
  stats : TlbStats

/-! ## Mappings -/

/-- `minimm_vma_t`; its flags are either `SHARED` or `PRIVATE`. -/
structure Vma where
  start : ℕ
  stop : ℕ
  mappingCookie : ℕ
  noteOffset : ℕ
  prot : Prot
  maxProt : Prot
  shared : Bool
  deriving DecidableEq, Repr

/-- `minimm_vma_tree_node_t`, by its height: a leaf holds ranges, an inner node its children, each
with the end of its last range. -/
def VmaTree : ℕ → Type
  | 0 => List Vma
  | h + 1 => List (ℕ × VmaTree h)

/-- `minimm_vma_snapshot_t`. -/
structure VmaSnapshot where
  ranges : List Vma
  root : Option ((h : ℕ) × VmaTree h)
  generation : ℕ

/-- `minimm_backing_kind_t`. -/
inductive BackingKind where
  | anonPrivate
  | anonShared
  | notePrivate
  | noteShared
  deriving DecidableEq, Repr

/-- What never changes of a `minimm_mapping_backing_t`. -/
structure BackingInfo where
  kind : BackingKind
  note : Option NoteId
  deriving DecidableEq, Repr

/-- A page list: the offsets ascend. -/
abbrev CachedPages := List (ℕ × FrameId)

/-- `minimm_space_binding_t`. -/
structure Binding where
  backing : BackingId
  cookie : ℕ
  deriving DecidableEq, Repr

/-! ## Faults and spaces -/

/-- `minimm_fault_reason_t`. -/
inductive FaultReason where
  | none
  | unmapped
  | notPresent
  | permission
  | cow
  | backingIo
  | noFrame
  deriving DecidableEq, Repr

/-- `minimm_fault_resolution_t`. -/
inductive FaultResolution where
  | unresolved
  | noAction
  | zeroFilled
  | pageIn
  | cowCopied
  | denied
  deriving DecidableEq, Repr

/-- `minimm_fault_origin_t`. -/
inductive FaultOrigin where
  | none
  | explicit
  | access
  deriving DecidableEq, Repr

/-- `minimm_fault_info_t`. -/
structure FaultInfo where
  sequence : ℕ
  address : ℕ
  pageAddress : ℕ
  access : Access
  origin : FaultOrigin
  reason : FaultReason := .none
  resolution : FaultResolution := .unresolved
  status : Status := .ok
  deriving DecidableEq, Repr

/-- `MINIMM_FAULT_TRACE_CAPACITY`. -/
def faultTraceCapacity : ℕ := 64

/-- What the lock of a `minimm_space_t` protects, the TLB and the break apart. -/
structure Space where
  pageTable : PageTable
  vmaSnapshot : VmaSnapshot
  mmapBase : ℕ
  nextMappingCookie : ℕ
  faultSequence : ℕ
  faultTrace : ℕ → Option FaultInfo
  faultTraceStart : ℕ
  faultTraceCount : ℕ
  faultTraceOverwrittenCount : ℕ
  bindings : List Binding
  closing : Bool

/-- What the `brk_lock` of a space protects. -/
structure Brk where
  brkBase : ℕ
  brkEnd : ℕ
  deriving DecidableEq, Repr

/-! ## Notes -/

/-- What never changes of a `minimm_note_t`. -/
structure NoteInfo where
  lineage : LineageId
  rights : NoteRights
  fileBacking : FileId
  externalBacking : Bool
  deriving DecidableEq, Repr

/-- What the lock of its lineage protects of a note. -/
structure NoteBody where
  pages : CachedPages
  cowParent : Option NoteId
  children : List NoteId
  inheritedSize : ℕ
  deriving DecidableEq, Repr

/-- The notes that share a `minimm_note_lineage_t`. -/
structure Lineage where
  members : List NoteId
  body : NoteId → NoteBody

end MiniMM
