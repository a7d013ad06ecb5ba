import MiniMM.Frame.Calls

/-!
# Page tables

`page_table.c`. The caller holds the lock of the space, so a table is a value that each function
takes and gives back. A page table entry is stored in that value once its counts are taken.
-/

namespace MiniMM

/-- `minimm_page_address_is_valid`. -/
def pageAddressIsValid (address : ℕ) : Bool :=
  decide (address < userAddressLimit) && decide (address % pageSize = 0)

namespace PageTable

/-- `minimm_page_table_create`, after its two allocations. -/
def empty : PageTable := ⟨Radix.empty 3, 0, 1⟩

/-- `minimm_page_table_index`. -/
def index (address level : ℕ) : Fin pageTableEntries :=
  Fin.ofNat _ (address >>> (12 + level * 9) &&& 0x1ff)

/-- `minimm_page_table_lookup`, with the loop of `minimm_page_table_lookup_internal`. -/
def lookup (t : PageTable) (address : ℕ) : Option Pte :=
  if address ≥ userAddressLimit then none
  else do
    let node ← t.root.child (index address 3)
    let node ← node.child (index address 2)
    let node ← node.child (index address 1)
    let pte ← node.child (index address 0)
    some pte.value

theorem slot_eq_index (address level : ℕ) :
    Radix.slot pageTableEntries level (address / pageSize) = index address level := by
  have hmask : ∀ n : ℕ, n &&& 0x1ff = n % 512 := fun n ↦ Nat.and_two_pow_sub_one_eq_mod n 9
  rw [Radix.slot, index, hmask, Nat.shiftRight_eq_div_pow, Nat.div_div_eq_div_mul, pow_add,
    mul_comm level, pow_mul]
  simp [Fin.ofNat, pageSize]

theorem lookup_eq_get (t : PageTable) {address : ℕ} (h : address < userAddressLimit) :
    t.lookup address = t.root.get 4 (address / pageSize) := by
  rw [lookup, if_neg (by omega)]
  have hslot : ∀ {n m : ℕ}, n < m → ∀ k, Radix.slot pageTableEntries n
      (k % pageTableEntries ^ m) = Radix.slot pageTableEntries n k := Radix.slot_mod
  simp (disch := decide) only [Radix.get, hslot, slot_eq_index]
  rfl

/-- `minimm_page_table_effective_protection`. -/
def effectiveProtection (protection : Prot) (flags : PteFlags) : Prot :=
  if flags.cow then protection.readOnly else protection

/-- Store an entry at a page whose node exists. -/
def store (t : PageTable) (address : ℕ) (pte : Pte) : PageTable :=
  { t with root := t.root.write 3 (address / pageSize) (some pte), generation := t.generation + 1 }

/-- `minimm_page_table_map`. -/
def map (t : PageTable) (address : ℕ) (frame : FrameId) (protection : Prot) (flags : PteFlags) :
    Code (Status × PageTable) :=
  if pageAddressIsValid address = false then pure (.invalidArgument, t)
  else if (t.lookup address).isSome then pure (.addressInUse, t)
  else do
    let (grown, root) ← Radix.grow Code.malloc 3 t.root (address / pageSize)
    if grown = false then pure (.outOfMemory, { t with root := root })
    else do
      let allocated ← Code.malloc
      -- the nodes made for this entry are unlinked again
      if allocated = false then pure (.outOfMemory, t)
      else do
        frameRetain frame
        let flags := { flags with present := true }
        Code.when flags.locked (Code.store (.pin .map frame))
        Code.store (.map frame)
        let t' : PageTable := { t with root := root, mappingCount := t.mappingCount + 1 }
        pure (.ok, t'.store address ⟨frame, effectiveProtection protection flags, flags⟩)

/-- Give up the counts of an entry that has been taken out of its table. -/
def dropPte (pte : Pte) : Code Unit := do
  Code.when pte.flags.locked (Code.store (.unpin pte.frame))
  Code.store (.unmap pte.frame)
  frameRelease pte.frame

/-- `minimm_page_table_unmap`. -/
def unmap (t : PageTable) (address : ℕ) : Code (Status × PageTable) :=
  if pageAddressIsValid address = false then pure (.invalidArgument, t)
  else
    match t.root.get 4 (address / pageSize) with
    | none => pure (.notFound, t)
    | some pte => do
      dropPte pte
      pure (.ok, ⟨t.root.erase 3 (address / pageSize), t.mappingCount - 1, t.generation + 1⟩)

/-- The argument checks that the functions updating an entry share. -/
def updateIsValid (address : ℕ) (set clear : PteFlags) : Bool :=
  pageAddressIsValid address && !(set.present || clear.present) && !set.meets clear

/-- `minimm_page_table_commit_attributes`. -/
def commitAttributes (t : PageTable) (address : ℕ) (pte : Pte) (protection : Prot)
    (set clear : PteFlags) : Code (Status × PageTable) := do
  let flags := pte.flags.update set clear
  let effective := effectiveProtection protection flags
  if pte.protection = effective ∧ pte.flags = flags then pure (.ok, t)
  else do
    Code.when (!pte.flags.locked && flags.locked) (Code.store (.pin .commitAttributes pte.frame))
    Code.when (pte.flags.locked && !flags.locked) (Code.store (.unpin pte.frame))
    pure (.ok, t.store address ⟨pte.frame, effective, flags⟩)

/-- `minimm_page_table_update_attributes`. -/
def updateAttributes (t : PageTable) (address : ℕ) (protection : Prot) (set clear : PteFlags) :
    Code (Status × PageTable) :=
  if updateIsValid address set clear = false then pure (.invalidArgument, t)
  else
    match t.lookup address with
    | none => pure (.notFound, t)
    | some pte => t.commitAttributes address pte protection set clear

/-- `minimm_page_table_update_flags`. -/
def updateFlags (t : PageTable) (address : ℕ) (set clear : PteFlags) : Code (Status × PageTable) :=
  if updateIsValid address set clear = false then pure (.invalidArgument, t)
  else
    match t.lookup address with
    | none => pure (.notFound, t)
    | some pte => t.commitAttributes address pte pte.protection set clear

/-- `minimm_page_table_protect`. -/
def protect (t : PageTable) (address : ℕ) (protection : Prot) : Code (Status × PageTable) :=
  t.updateAttributes address protection {} {}

/-- `minimm_page_table_replace_frame`. -/
def replaceFrame (t : PageTable) (address : ℕ) (frame : FrameId) (protection : Prot)
    (set clear : PteFlags) : Code (Status × PageTable) :=
  if updateIsValid address set clear = false then pure (.invalidArgument, t)
  else
    match t.lookup address with
    | none => pure (.notFound, t)
    | some pte => do
      frameRetain frame
      let flags := pte.flags.update set clear
      Code.when flags.locked (Code.store (.pin .replaceFrame frame))
      Code.when (frame ≠ pte.frame) (Code.store (.map frame))
      let t := t.store address ⟨frame, effectiveProtection protection flags, flags⟩
      Code.when pte.flags.locked (Code.store (.unpin pte.frame))
      Code.when (frame ≠ pte.frame) (Code.store (.unmap pte.frame))
      frameReleaseAt .replaceFrame pte.frame
      pure (.ok, t)

/-- The entries of a table by page number, in ascending order: what `minimm_page_table_for_each`
visits. -/
def entries (t : PageTable) : List (ℕ × Pte) := t.root.entries 4 0

/-- `minimm_page_table_for_each`. -/
def forEach {m : Type → Type} [Monad m] (t : PageTable) (visitor : ℕ → Pte → m Unit) : m Unit :=
  Radix.visit (fun page pte ↦ visitor (page * pageSize) pte) 4 t.root 0

/-- `minimm_page_table_find_next`. -/
def findNext (t : PageTable) (start stop : ℕ) : Except Status ℕ :=
  if start > stop ∨ stop > userAddressLimit ∨ start % pageSize ≠ 0 ∨ stop % pageSize ≠ 0 then
    .error .invalidArgument
  else if start = stop then .error .notFound
  else
    match Radix.findNext (start / pageSize) (stop / pageSize) 4 t.root 0 with
    | none => .error .notFound
    | some page => .ok (page * pageSize)

/-- `minimm_page_table_node_destroy` of the root, entry by entry. -/
def destroyEntries : List (ℕ × Pte) → Code Unit
  | [] => pure ()
  | (_, pte) :: rest => do
    dropPte pte
    destroyEntries rest

/-- `minimm_page_table_destroy`. -/
def destroy (t : PageTable) : Code Unit := destroyEntries t.entries

end PageTable

end MiniMM
