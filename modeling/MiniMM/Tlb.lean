import MiniMM.PageTable

/-!
# Translation lookaside buffers

`tlb.c`. The TLB of a space is used under the lock of the space.
-/

namespace MiniMM

namespace Tlb

/-- `minimm_tlb_index`. -/
def index (capacity page : ℕ) : ℕ := page % capacity

/-- `minimm_tlb_entry_clear` of a valid entry. -/
def entryClear (i : SpaceId) (index : ℕ) (e : TlbEntry) : Code Unit := do
  Code.tlb i (.set index none)
  frameRelease e.translation.frame

/-- `minimm_tlb_lookup`. -/
def lookup (i : SpaceId) (address : ℕ) : Code (Option Pte) :=
  if address ≥ userAddressLimit then pure none
  else do
    let capacity ← Code.tlb i .capacity
    let page := address / pageSize
    let entry ← Code.tlb i (.entry (index capacity page))
    match entry with
    | none => do
      Code.tlb i (.count .misses)
      pure none
    | some e =>
      if e.virtualPage ≠ page then do
        Code.tlb i (.count .misses)
        pure none
      else do
        let resident ← Code.store (.isResident e.translation.frame)
        if resident = false then do
          entryClear i (index capacity page) e
          Code.tlb i (.count .misses)
          Code.tlb i (.count .invalidations)
          pure none
        else do
          Code.tlb i (.count .hits)
          frameRetain e.translation.frame
          pure (some e.translation)

/-- `minimm_tlb_insert`. -/
def insert (i : SpaceId) (address : ℕ) (pte : Pte) : Code Unit :=
  if address ≥ userAddressLimit then pure ()
  else do
    let capacity ← Code.tlb i .capacity
    let page := address / pageSize
    let entry ← Code.tlb i (.entry (index capacity page))
    match entry with
    | none => do
      frameRetain pte.frame
      Code.tlb i (.set (index capacity page) (some ⟨page, pte⟩))
    | some e => do
      Code.when (e.virtualPage ≠ page) (Code.tlb i (.count .replacements))
      frameRetain pte.frame
      entryClear i (index capacity page) e
      Code.tlb i (.set (index capacity page) (some ⟨page, pte⟩))

/-- Clear the entry at an index if it translates a wanted page. -/
def invalidateIndex (i : SpaceId) (wanted : ℕ → Bool) (index : ℕ) : Code Unit := do
  let entry ← Code.tlb i (.entry index)
  match entry with
  | none => pure ()
  | some e =>
    if wanted e.virtualPage then do
      entryClear i index e
      Code.tlb i (.count .invalidations)
    else pure ()

/-- `minimm_tlb_invalidate_page`. -/
def invalidatePage (i : SpaceId) (address : ℕ) : Code Unit :=
  if address ≥ userAddressLimit then pure ()
  else do
    let capacity ← Code.tlb i .capacity
    invalidateIndex i (fun page ↦ page = address / pageSize) (index capacity (address / pageSize))

/-- The loops over all entries. -/
def invalidateFrom (i : SpaceId) (wanted : ℕ → Bool) : List ℕ → Code Unit
  | [] => pure ()
  | index :: rest => do
    invalidateIndex i wanted index
    invalidateFrom i wanted rest

/-- `minimm_tlb_invalidate_range`. -/
def invalidateRange (i : SpaceId) (start stop : ℕ) : Code Unit :=
  if start ≥ stop ∨ stop > userAddressLimit then pure ()
  else do
    let capacity ← Code.tlb i .capacity
    invalidateFrom i
      (fun page ↦ decide (start / pageSize ≤ page) &&
        decide (page < (stop + pageSize - 1) / pageSize))
      (List.range capacity)

/-- `minimm_tlb_flush`. -/
def flush (i : SpaceId) : Code Unit := do
  let capacity ← Code.tlb i .capacity
  invalidateFrom i (fun _ ↦ true) (List.range capacity)

/-- `minimm_tlb_destroy`, over the entries still to clear. -/
def destroyFrom (i : SpaceId) : List ℕ → Code Unit
  | [] => pure ()
  | index :: rest => do
    let entry ← Code.tlb i (.entry index)
    match entry with
    | none => destroyFrom i rest
    | some e => do
      entryClear i index e
      destroyFrom i rest

/-- `minimm_tlb_destroy`. -/
def destroy (i : SpaceId) : Code Unit := do
  let capacity ← Code.tlb i .capacity
  destroyFrom i (List.range capacity)

end Tlb

end MiniMM
