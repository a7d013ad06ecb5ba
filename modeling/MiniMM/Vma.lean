import MiniMM.Frame.Calls
import MiniMM.Lib.Search

/-!
# Snapshots of the mappings

`vma_tree.c`. A snapshot is never changed: an operation builds a new one from a new list of ranges.
-/

namespace MiniMM

namespace Vma

/-- `minimm_vma_page_range_is_valid`. -/
def pageRangeIsValid (start stop : ℕ) : Bool :=
  decide (start < stop) && decide (stop ≤ userAddressLimit) && decide (start % pageSize = 0) &&
    decide (stop % pageSize = 0)

/-- `minimm_vma_is_valid`. -/
def isValid (v : Vma) : Bool :=
  pageRangeIsValid v.start v.stop && decide (v.noteOffset % pageSize = 0) && v.prot.isValid &&
    v.maxProt.isValid && v.prot.within v.maxProt &&
    decide (v.noteOffset ≤ sizeMax - (v.stop - v.start))

/-- `minimm_vma_can_merge`. -/
def canMerge (left right : Vma) : Bool :=
  decide (left.stop = right.start) && decide (left.mappingCookie = right.mappingCookie) &&
    decide (left.prot = right.prot) && decide (left.maxProt = right.maxProt) &&
    decide (left.shared = right.shared) &&
    decide ((left.noteOffset + (left.stop - left.start)) % 2 ^ 64 = right.noteOffset)

/-- `minimm_vma_fragment`; `none` is an offset overflow. -/
def fragment (source : Vma) (start stop : ℕ) (protection : Option Prot) : Option Vma :=
  if source.noteOffset > sizeMax - (start - source.start) then none
  else some { source with
    start := start
    stop := stop
    noteOffset := source.noteOffset + (start - source.start)
    prot := protection.getD source.prot }

end Vma

/-! ## The tree -/

/-- `MINIMM_VMA_TREE_FANOUT`. -/
def vmaTreeFanout : ℕ := 16

/-- The loop that cuts the ranges of an inner node into those of its children. -/
def chunks {α : Type} (size : ℕ) : ℕ → List α → List (List α)
  | 0, _ => []
  | fuel + 1, xs => if xs.isEmpty then [] else xs.take size :: chunks size fuel (xs.drop size)

/-- Build each child; a failure frees those already built. -/
def buildAll {α β : Type} (build : α → Code (Option β)) : List α → Code (Option (List β))
  | [] => pure (some [])
  | x :: xs => do
    let y ← build x
    match y with
    | none => pure none
    | some y => do
      let ys ← buildAll build xs
      pure (ys.map (y :: ·))

/-- `ranges[count - 1].end`. -/
def lastStop (ranges : List Vma) : ℕ := (ranges.getLast?.map Vma.stop).getD 0

/-- `minimm_vma_tree_build_node`. -/
def vmaTreeBuildNode : (height : ℕ) → List Vma → Code (Option (VmaTree height))
  | 0, ranges => do
    let allocated ← Code.malloc
    pure (if allocated then some ranges else none)
  | h + 1, ranges => do
    let allocated ← Code.malloc
    if allocated then
      buildAll (fun chunk ↦ do
          let child ← vmaTreeBuildNode h chunk
          pure (child.map fun c ↦ (lastStop chunk, c)))
        (chunks (vmaTreeFanout ^ (h + 1)) ranges.length ranges)
    else pure none

/-- The height of a tree for `count` ranges; `none` is an overflow of the capacity. -/
def vmaTreeHeight (count : ℕ) : ℕ → ℕ → ℕ → Option ℕ
  | 0, _, _ => none
  | fuel + 1, capacity, height =>
    if count > capacity then
      if capacity > sizeMax / vmaTreeFanout then none
      else vmaTreeHeight count fuel (capacity * vmaTreeFanout) (height + 1)
    else some height

/-- `minimm_vma_tree_build`. -/
def vmaTreeBuild (ranges : List Vma) : Code (Status × Option ((h : ℕ) × VmaTree h)) :=
  if ranges.isEmpty then pure (.ok, none)
  else
    match vmaTreeHeight ranges.length 64 vmaTreeFanout 0 with
    | none => pure (.noSpace, none)
    | some h => do
      let root ← vmaTreeBuildNode h ranges
      match root with
      | none => pure (.outOfMemory, none)
      | some root => pure (.ok, some ⟨h, root⟩)

/-- The search in a leaf. -/
def lookupLeaf (ranges : List Vma) (address : ℕ) : Option Vma :=
  let low := Search.partitionPoint
    (fun i ↦ ((ranges[i]?).map fun v ↦ decide (v.start ≤ address)).getD false) ranges.length
  if low = 0 then none
  else (ranges[low - 1]?).filter fun v ↦ decide (address < v.stop)

/-- The descent of `minimm_vma_snapshot_lookup`. -/
def lookupNode : (h : ℕ) → VmaTree h → ℕ → Option Vma
  | 0, ranges, address => lookupLeaf ranges address
  | h + 1, children, address =>
    (List.find? (fun c : ℕ × VmaTree h ↦ decide (address < c.1)) children).bind
      fun c ↦ lookupNode h c.2 address

namespace VmaSnapshot

/-- The step of `minimm_vma_coalesce_ranges`: the output so far is in reverse order. -/
def coalesceStep (output : List Vma) (v : Vma) : List Vma :=
  match output with
  | last :: rest => if last.canMerge v then { last with stop := v.stop } :: rest else v :: output
  | [] => [v]

/-- `minimm_vma_coalesce_ranges`. -/
def coalesceRanges (ranges : List Vma) : List Vma := (ranges.foldl coalesceStep []).reverse

/-- `minimm_vma_snapshot_from_ranges`. -/
def fromRanges (ranges : List Vma) (generation : ℕ) : Code (Status × Option VmaSnapshot) := do
  let allocated ← Code.malloc
  if allocated then do
    let ranges := coalesceRanges ranges
    let (status, root) ← vmaTreeBuild ranges
    pure (status, if status = .ok then some ⟨ranges, root, generation⟩ else none)
  else pure (.outOfMemory, none)

/-- The size of `minimm_vma_t` in bytes. -/
def vmaSize : ℕ := 48

/-- `minimm_vma_allocate_ranges`. -/
def allocateRanges (count : ℕ) : Code Status :=
  if count = 0 then pure .ok
  else if count > sizeMax / vmaSize then pure .noSpace
  else do
    let allocated ← Code.malloc
    pure (if allocated then .ok else .outOfMemory)

/-- `minimm_vma_snapshot_create`. -/
def create : Code (Status × Option VmaSnapshot) := fromRanges [] 1

/-- The snapshot of a new space. -/
def empty : VmaSnapshot := ⟨[], none, 1⟩

/-- Allocate an array of `count` ranges and build a snapshot of it. -/
def ofRanges (count : ℕ) (ranges : Option (List Vma)) (generation : ℕ) :
    Code (Status × Option VmaSnapshot) := do
  let status ← allocateRanges count
  if status ≠ .ok then pure (status, none)
  else
    match ranges with
    | none => pure (.noSpace, none)
    | some ranges => fromRanges ranges generation

/-- `minimm_vma_snapshot_clone`. -/
def clone (s : VmaSnapshot) : Code (Status × Option VmaSnapshot) :=
  ofRanges s.ranges.length (some s.ranges) s.generation

/-- `minimm_vma_snapshot_lookup`. -/
def lookup (s : VmaSnapshot) (address : ℕ) : Option Vma :=
  if address ≥ userAddressLimit then none
  else s.root.bind fun root ↦ lookupNode root.1 root.2 address

/-- `minimm_vma_snapshot_find_next`. -/
def findNext (s : VmaSnapshot) (address : ℕ) : Option Vma :=
  if address ≥ userAddressLimit then none
  else s.ranges[Search.partitionPoint
    (fun i ↦ ((s.ranges[i]?).map fun v ↦ decide (v.stop ≤ address)).getD false) s.ranges.length]?

/-- `minimm_vma_snapshot_contains_cookie`. -/
def containsCookie (s : VmaSnapshot) (cookie : ℕ) : Bool :=
  decide (cookie ≠ 0) && s.ranges.any fun v ↦ decide (v.mappingCookie = cookie)

/-- A new snapshot with the next generation. -/
def nextSnapshot (s : VmaSnapshot) (count : ℕ) (ranges : Option (List Vma)) :
    Code (Status × Option VmaSnapshot) :=
  if s.generation = sizeMax then pure (.noSpace, none)
  else ofRanges count ranges (s.generation + 1)

/-- `minimm_vma_snapshot_insert`. -/
def insert (s : VmaSnapshot) (v : Vma) : Code (Status × Option VmaSnapshot) :=
  if v.isValid = false then pure (.invalidArgument, none)
  else
    let position := Search.partitionPoint
      (fun i ↦ ((s.ranges[i]?).map fun u ↦ decide (u.start < v.start)).getD false) s.ranges.length
    if (decide (position > 0) && (s.ranges[position - 1]?).any fun u ↦ decide (u.stop > v.start)) ||
        (s.ranges[position]?).any fun u ↦ decide (u.start < v.stop) then
      pure (.addressInUse, none)
    else if s.ranges.length = sizeMax then pure (.noSpace, none)
    else s.nextSnapshot (s.ranges.length + 1)
      (some (s.ranges.take position ++ v :: s.ranges.drop position))

/-- A range outside `[start, stop)`. -/
def apartFrom (start stop : ℕ) (v : Vma) : Bool :=
  decide (v.stop ≤ start) || decide (v.start ≥ stop)

/-- Join the fragments of the ranges; `none` is an offset overflow. -/
def joinFragments (cut : Vma → List (Option Vma)) : List Vma → Option (List Vma)
  | [] => some []
  | v :: rest => do
    let pieces ← (cut v).mapM id
    let tail ← joinFragments cut rest
    some (pieces ++ tail)

/-- What `minimm_vma_snapshot_remove` leaves of one range. -/
def removeFrom (start stop : ℕ) (v : Vma) : List (Option Vma) :=
  if apartFrom start stop v then [some v]
  else
    (if v.start < start then [v.fragment v.start start none] else []) ++
      (if v.stop > stop then [v.fragment stop v.stop none] else [])

/-- `minimm_vma_snapshot_remove`. -/
def remove (s : VmaSnapshot) (start stop : ℕ) : Code (Status × Option VmaSnapshot) :=
  if Vma.pageRangeIsValid start stop = false then pure (.invalidArgument, none)
  else
    let count := (s.ranges.map fun v ↦ (removeFrom start stop v).length).sum
    if count > sizeMax then pure (.noSpace, none)
    else s.nextSnapshot count (joinFragments (removeFrom start stop) s.ranges)

/-- The check of `minimm_vma_snapshot_protect`: the ranges cover the interval and allow the
protection. Returns how far they do. -/
def protectCheck (stop : ℕ) (protection : Prot) : List Vma → ℕ → Status × ℕ
  | [], covered => (.ok, covered)
  | v :: rest, covered =>
    if covered < stop then
      if v.stop ≤ covered then protectCheck stop protection rest covered
      else if v.start > covered ∨ v.start ≥ stop then (.notFound, covered)
      else if protection.within v.maxProt = false then (.permission, covered)
      else protectCheck stop protection rest (min v.stop stop)
    else (.ok, covered)

/-- What `minimm_vma_snapshot_protect` makes of one range. -/
def protectIn (start stop : ℕ) (protection : Prot) (v : Vma) : List (Option Vma) :=
  if apartFrom start stop v then [some v]
  else
    let middleStart := max v.start start
    let middleStop := min v.stop stop
    (if v.start < middleStart then [v.fragment v.start middleStart none] else []) ++
      [v.fragment middleStart middleStop (some protection)] ++
      (if v.stop > middleStop then [v.fragment middleStop v.stop none] else [])

/-- `minimm_vma_snapshot_protect`. -/
def protect (s : VmaSnapshot) (start stop : ℕ) (protection : Prot) :
    Code (Status × Option VmaSnapshot) :=
  if Vma.pageRangeIsValid start stop = false ∨ protection.isValid = false then
    pure (.invalidArgument, none)
  else
    let check := protectCheck stop protection s.ranges start
    if check.1 ≠ .ok then pure (check.1, none)
    else if check.2 ≠ stop then pure (.notFound, none)
    else
      let count := (s.ranges.map fun v ↦ (protectIn start stop protection v).length).sum
      if count > sizeMax then pure (.noSpace, none)
      else s.nextSnapshot count (joinFragments (protectIn start stop protection) s.ranges)

/-- `minimm_vma_align_up`, for an alignment that is a power of two. -/
def alignUp (value alignment : ℕ) : Option ℕ :=
  if value > sizeMax - (alignment - 1) then none
  else some ((value + (alignment - 1)) / alignment * alignment)

/-- The loop of `minimm_vma_snapshot_find_gap`. -/
def findGapFrom (lower upper length alignment : ℕ) : List Vma → ℕ → Status × ℕ
  | [], candidate =>
    if candidate ≤ upper ∧ length ≤ upper - candidate then (.ok, candidate)
    else (.noSpace, addressAuto)
  | v :: rest, candidate =>
    if v.stop ≤ lower then findGapFrom lower upper length alignment rest candidate
    else if v.start ≥ upper then
      if candidate ≤ upper ∧ length ≤ upper - candidate then (.ok, candidate)
      else (.noSpace, addressAuto)
    else if candidate < v.start ∧ length ≤ v.start - candidate then (.ok, candidate)
    else if candidate < v.stop then
      match alignUp v.stop alignment with
      | none => (.noSpace, addressAuto)
      | some candidate => findGapFrom lower upper length alignment rest candidate
    else findGapFrom lower upper length alignment rest candidate

/-- `minimm_vma_snapshot_find_gap`. -/
def findGapAligned (s : VmaSnapshot) (lower upper length alignment : ℕ) : Status × ℕ :=
  if lower ≥ upper ∨ upper > userAddressLimit ∨ length = 0 ∨ length % pageSize ≠ 0 ∨
      alignment < pageSize ∨ alignment &&& (alignment - 1) ≠ 0 then
    (.invalidArgument, addressAuto)
  else
    match alignUp lower alignment with
    | none => (.noSpace, addressAuto)
    | some candidate => findGapFrom lower upper length alignment s.ranges candidate

/-- The search as all callers in `mapping.c` make it, with `MINIMM_PAGE_SIZE` as its alignment. -/
def findGap (s : VmaSnapshot) (lower upper length : ℕ) : Status × ℕ :=
  s.findGapAligned lower upper length pageSize

end VmaSnapshot

end MiniMM
