import MiniMM.Lib.Word
import MiniMM.MemoryApi

/-!
# Ranges in words of 64 bits

The checks of `mapping.c` and `memory_api.c` on the ranges that callers pass, as
the source computes them.  The calls of the other modules work on the naturals;
here both are compared.
-/

namespace MiniMM

namespace WordRange

open Word

abbrev Word64 := BitVec 64

/-- `MINIMM_PAGE_SIZE`. -/
def pageSizeWord : Word64 := 1 <<< 12

/-- `MINIMM_PAGE_SIZE - UINT64_C(1)`. -/
def pageMask : Word64 := pageSizeWord - 1

/-- `MINIMM_USER_ADDRESS_LIMIT`. -/
def addressLimit : Word64 := 1 <<< 47

/-- `MINIMM_MMAP_MIN_ADDRESS`. -/
def minAddress : Word64 := 0x10000

/-- `UINT64_MAX`. -/
def uint64Max : Word64 := BitVec.allOnes 64

/-- `minimm_mapping_align_length`, with nothing when it refuses. -/
def mappingAlignLength (length : Word64) : Traced (Option Word64) := do
  let bound ← sub uint64Max pageMask
  if length = 0 ∨ length > bound then pure none
  else do
    let sum ← add length pageMask
    let aligned := sum &&& ~~~pageMask
    if aligned = 0 ∨ aligned > addressLimit then pure none else pure (some aligned)

/-- The two range checks of `mapping.c`, of which the second has no lowest address: the end of the
range. -/
def rangeIsValid (lowest start length : Word64) : Traced (Option Word64) :=
  if start < lowest ∨ start &&& pageMask ≠ 0 ∨ start ≥ addressLimit then pure none
  else do
    let room ← sub addressLimit start
    if length > room then pure none
    else do
      let stop ← add start length
      pure (some stop)

/-- `minimm_mapping_range_is_valid`. -/
def mappingRangeIsValid : Word64 → Word64 → Traced (Option Word64) := rangeIsValid minAddress

/-- `minimm_mapping_operation_range_is_valid`. -/
def mappingOperationRangeIsValid : Word64 → Word64 → Traced (Option Word64) := rangeIsValid 0

/-- `minimm_memory_range_t`. -/
structure Range where
  start : Word64
  stop : Word64
  pageCount : Word64
  deriving DecidableEq, Repr

/-- `minimm_memory_prepare_range`. -/
def memoryPrepareRange (address length : Word64) : Traced (Option Range) := do
  let bound ← sub uint64Max pageMask
  if length = 0 ∨ address &&& pageMask ≠ 0 ∨ length > bound then pure none
  else do
    let sum ← add length pageSizeWord
    let sum ← sub sum 1
    let aligned := sum &&& ~~~pageMask
    if address ≥ addressLimit then pure none
    else do
      let room ← sub addressLimit address
      if aligned > room then pure none
      else do
        let stop ← add address aligned
        pure (some ⟨address, stop, aligned / pageSizeWord⟩)

/-- `minimm_memory_prepare_lock_range`. -/
def memoryPrepareLockRange (address length : Word64) : Traced (Option Range) := do
  let start := address &&& ~~~pageMask
  let offset ← sub address start
  if length = 0 ∨ address ≥ addressLimit then pure none
  else do
    let bound ← sub uint64Max offset
    if length > bound then pure none
    else do
      let span ← add length offset
      let bound ← sub uint64Max pageMask
      if span > bound then pure none
      else do
        let sum ← add span pageMask
        let aligned := sum &&& ~~~pageMask
        if aligned = 0 then pure none
        else do
          let room ← sub addressLimit start
          if aligned > room then pure none
          else do
            let stop ← add start aligned
            pure (some ⟨start, stop, aligned / pageSizeWord⟩)

/-! ## Rounding -/

variable {address length start : Word64}

theorem toNat_pageMask : pageMask.toNat = pageSize - 1 := by decide

theorem toNat_addressLimit : addressLimit.toNat = userAddressLimit := by decide

theorem and_pageMask_ne_zero (a : Word64) : a &&& pageMask ≠ 0 ↔ a.toNat % pageSize ≠ 0 := by
  have hmod : (a &&& pageMask).toNat = a.toNat % pageSize :=
    toNat_and_mask (k := 12) (by decide)
  rw [← hmod, ne_eq, ne_eq, ← BitVec.toNat_inj]
  rfl

theorem toNat_and_not_pageMask (a : Word64) :
    (a &&& ~~~pageMask).toNat = a.toNat / pageSize * pageSize :=
  toNat_and_not_mask 12

theorem sub_uint64Max (a : Word64) : sub uint64Max a = pure (uint64Max - a) ∧
    (uint64Max - a).toNat = sizeMax - a.toNat := by
  have hle : a ≤ uint64Max := by
    have := a.isLt
    rw [BitVec.le_def, show uint64Max.toNat = 2 ^ 64 - 1 by decide]
    omega
  exact ⟨sub_eq hle, BitVec.toNat_sub_of_le hle⟩

theorem eq_zero_iff (a : Word64) : a = 0 ↔ a.toNat = 0 := by
  rw [← BitVec.toNat_inj]
  rfl

theorem add_of_le_bound {a b : Word64} (h : ¬a > uint64Max - b) :
    add a b = pure (a + b) ∧ (a + b).toNat = a.toNat + b.toNat := by
  rw [gt_iff_lt, BitVec.lt_def, (sub_uint64Max b).2, sizeMax] at h
  have hlt : a.toNat + b.toNat < 2 ^ 64 := by
    have := b.isLt
    omega
  exact ⟨add_eq hlt, BitVec.toNat_add_of_lt hlt⟩

/-! ## The words agree with the naturals -/

theorem mappingAlignLength_spec (length : Word64) : ∃ r, mappingAlignLength length = pure r ∧
    r.map BitVec.toNat = Space.mappingAlignLength length.toNat := by
  have hbound : (length = 0 ∨ length > uint64Max - pageMask) ↔
      (length.toNat = 0 ∨ length.toNat > sizeMax - (pageSize - 1)) := by
    rw [eq_zero_iff, gt_iff_lt, BitVec.lt_def, (sub_uint64Max pageMask).2, toNat_pageMask]
  rw [mappingAlignLength, (sub_uint64Max pageMask).1, Traced.pure_bind, Space.mappingAlignLength]
  by_cases hbad : length = 0 ∨ length > uint64Max - pageMask
  · rw [if_pos hbad, if_pos (hbound.1 hbad)]
    exact ⟨none, rfl, rfl⟩
  rw [if_neg hbad, if_neg (hbound.not.1 hbad)]
  obtain ⟨hadd, hsum⟩ := add_of_le_bound (not_or.1 hbad).2
  rw [toNat_pageMask] at hsum
  rw [hadd, Traced.pure_bind]
  have haligned := toNat_and_not_pageMask (length + pageMask)
  rw [hsum] at haligned
  have hlimit : ((length + pageMask) &&& ~~~pageMask = 0 ∨
      (length + pageMask) &&& ~~~pageMask > addressLimit) ↔
      ((length.toNat + (pageSize - 1)) / pageSize * pageSize = 0 ∨
        (length.toNat + (pageSize - 1)) / pageSize * pageSize > userAddressLimit) := by
    rw [eq_zero_iff, gt_iff_lt, BitVec.lt_def, haligned, toNat_addressLimit]
  by_cases hlarge : (length + pageMask) &&& ~~~pageMask = 0 ∨
      (length + pageMask) &&& ~~~pageMask > addressLimit
  · rw [if_pos hlarge, if_pos (hlimit.1 hlarge)]
    exact ⟨none, rfl, rfl⟩
  · rw [if_neg hlarge, if_neg (hlimit.not.1 hlarge)]
    exact ⟨_, rfl, congrArg some haligned⟩

theorem sub_addressLimit {a : Word64} (h : ¬a ≥ addressLimit) :
    sub addressLimit a = pure (addressLimit - a) ∧
      (addressLimit - a).toNat = userAddressLimit - a.toNat := by
  have hle : a ≤ addressLimit := BitVec.le_of_lt (BitVec.not_le.1 h)
  exact ⟨sub_eq hle, BitVec.toNat_sub_of_le hle⟩

theorem add_of_le_room {a b : Word64} (ha : a ≤ addressLimit) (h : ¬b > addressLimit - a) :
    add a b = pure (a + b) ∧ (a + b).toNat = a.toNat + b.toNat := by
  rw [gt_iff_lt, BitVec.lt_def, BitVec.toNat_sub_of_le ha, toNat_addressLimit] at h
  rw [BitVec.le_def, toNat_addressLimit] at ha
  have hlt : a.toNat + b.toNat < 2 ^ 64 := by
    rw [userAddressLimit] at h ha
    omega
  exact ⟨add_eq hlt, BitVec.toNat_add_of_lt hlt⟩

theorem rangeIsValid_spec (lowest start length : Word64) : ∃ r,
    rangeIsValid lowest start length = pure r ∧
      (r.isSome ↔ lowest.toNat ≤ start.toNat ∧ start.toNat % pageSize = 0 ∧
        start.toNat < userAddressLimit ∧ length.toNat ≤ userAddressLimit - start.toNat) ∧
      ∀ stop ∈ r, stop.toNat = start.toNat + length.toNat := by
  rw [rangeIsValid]
  by_cases hbad : start < lowest ∨ start &&& pageMask ≠ 0 ∨ start ≥ addressLimit
  · rw [if_pos hbad]
    refine ⟨none, rfl, ?_, nofun⟩
    rw [BitVec.lt_def, and_pageMask_ne_zero, ge_iff_le, BitVec.le_def, toNat_addressLimit] at hbad
    simp only [Option.isSome_none, Bool.false_eq_true, false_iff]
    omega
  rw [if_neg hbad]
  have hroom := sub_addressLimit (not_or.1 (not_or.1 hbad).2).2
  have hle : start ≤ addressLimit := BitVec.le_of_lt
    (BitVec.not_le.1 (not_or.1 (not_or.1 hbad).2).2)
  rw [BitVec.lt_def, and_pageMask_ne_zero, ge_iff_le, BitVec.le_def, toNat_addressLimit] at hbad
  rw [hroom.1, Traced.pure_bind]
  by_cases hlong : length > addressLimit - start
  · rw [if_pos hlong]
    refine ⟨none, rfl, ?_, nofun⟩
    rw [gt_iff_lt, BitVec.lt_def, hroom.2] at hlong
    simp only [Option.isSome_none, Bool.false_eq_true, false_iff]
    omega
  · rw [if_neg hlong]
    obtain ⟨hadd, hstop⟩ := add_of_le_room hle hlong
    rw [hadd, Traced.pure_bind]
    refine ⟨some (start + length), rfl, ?_, ?_⟩
    · rw [gt_iff_lt, BitVec.lt_def, hroom.2] at hlong
      simp only [Option.isSome_some, true_iff]
      omega
    · rintro _ ⟨⟩
      exact hstop

/-- The range without its count of pages. -/
def Range.memoryRange (r : Range) : MemoryRange := ⟨r.start.toNat, r.stop.toNat⟩

/-- The words of a result are those of the naturals. -/
structure Agrees (r : Option Range) (r' : Option MemoryRange) : Prop where
  range : r.map Range.memoryRange = r'
  pageCount : ∀ x ∈ r, x.pageCount.toNat = x.memoryRange.pageCount

theorem agrees_none : Agrees none none := ⟨rfl, nofun⟩

theorem agrees_some {start stop aligned : Word64}
    (hstop : stop.toNat = start.toNat + aligned.toNat) :
    Agrees (some ⟨start, stop, aligned / pageSizeWord⟩)
      (some ⟨start.toNat, start.toNat + aligned.toNat⟩) := by
  refine ⟨congrArg (fun stop ↦ some (MemoryRange.mk start.toNat stop)) hstop, ?_⟩
  rintro _ ⟨⟩
  rw [BitVec.toNat_udiv, MemoryRange.pageCount, Range.memoryRange, hstop, Nat.add_sub_cancel_left]
  rfl

/-- The last steps of `minimm_memory_prepare_range` and `minimm_memory_prepare_lock_range`. -/
theorem room_spec (start aligned : Word64) (hstart : ¬start ≥ addressLimit) : ∃ r,
    (do
      let room ← sub addressLimit start
      if aligned > room then pure none
      else do
        let stop ← add start aligned
        pure (some (Range.mk start stop (aligned / pageSizeWord)))) = (pure r : Traced _) ∧
      Agrees r (if aligned.toNat > userAddressLimit - start.toNat then none
        else some ⟨start.toNat, start.toNat + aligned.toNat⟩) := by
  have hroom := sub_addressLimit hstart
  have hlong : aligned > addressLimit - start ↔
      aligned.toNat > userAddressLimit - start.toNat := by
    rw [gt_iff_lt, BitVec.lt_def, hroom.2]
  rw [hroom.1, Traced.pure_bind]
  by_cases hbad : aligned > addressLimit - start
  · rw [if_pos hbad, if_pos (hlong.1 hbad)]
    exact ⟨none, rfl, agrees_none⟩
  · rw [if_neg hbad, if_neg (hlong.not.1 hbad)]
    obtain ⟨hadd, hstop⟩ := add_of_le_room (BitVec.le_of_lt (BitVec.not_le.1 hstart)) hbad
    rw [hadd, Traced.pure_bind]
    exact ⟨_, rfl, agrees_some hstop⟩

theorem memoryPrepareLockRange_spec (address length : Word64) : ∃ r,
    memoryPrepareLockRange address length = pure r ∧
      Agrees r (Space.memoryPrepareLockRange address.toNat length.toNat) := by
  have hstart : (address &&& ~~~pageMask).toNat = Space.pageOf address.toNat := by
    rw [toNat_and_not_pageMask, Space.pageOf, pageSize]
    omega
  have hle : Space.pageOf address.toNat ≤ address.toNat := Nat.sub_le _ _
  have hoffset : address &&& ~~~pageMask ≤ address := by
    rw [BitVec.le_def, hstart]
    exact hle
  have hoffsetNat : (address - (address &&& ~~~pageMask)).toNat =
      address.toNat - Space.pageOf address.toNat := by
    rw [BitVec.toNat_sub_of_le hoffset, hstart]
  have hlimit : address ≥ addressLimit ↔ address.toNat ≥ userAddressLimit := by
    rw [ge_iff_le, BitVec.le_def, toNat_addressLimit]
  rw [memoryPrepareLockRange, Space.memoryPrepareLockRange, sub_eq hoffset, Traced.pure_bind]
  dsimp only
  rw [← hoffsetNat, ← hstart]
  by_cases hbad : length = 0 ∨ address ≥ addressLimit
  · rw [if_pos hbad, if_pos (by rw [eq_zero_iff, hlimit] at hbad; omega)]
    exact ⟨none, rfl, agrees_none⟩
  rw [if_neg hbad]
  obtain ⟨hlength, haddress⟩ := not_or.1 hbad
  generalize address - (address &&& ~~~pageMask) = offset at hoffsetNat ⊢
  obtain ⟨hsub, hsubNat⟩ := sub_uint64Max offset
  rw [hsub, Traced.pure_bind]
  by_cases hlong : length > uint64Max - offset
  · rw [if_pos hlong, if_pos]
    · exact ⟨none, rfl, agrees_none⟩
    · rw [gt_iff_lt, BitVec.lt_def, hsubNat] at hlong
      exact .inr (.inr hlong)
  rw [if_neg hlong, if_neg]
  swap
  · rw [gt_iff_lt, BitVec.lt_def, hsubNat] at hlong
    rw [eq_zero_iff] at hlength
    rw [hlimit] at haddress
    omega
  obtain ⟨hspan, hspanNat⟩ := add_of_le_bound hlong
  obtain ⟨hbound, hboundNat⟩ := sub_uint64Max pageMask
  rw [hspan, Traced.pure_bind, hbound, Traced.pure_bind]
  by_cases hwide : length + offset > uint64Max - pageMask
  · rw [if_pos hwide, if_pos]
    · exact ⟨none, rfl, agrees_none⟩
    · rwa [gt_iff_lt, BitVec.lt_def, hboundNat, hspanNat, toNat_pageMask] at hwide
  rw [if_neg hwide, if_neg]
  swap
  · rwa [gt_iff_lt, BitVec.lt_def, hboundNat, hspanNat, toNat_pageMask] at hwide
  obtain ⟨hsum, hsumNat⟩ := add_of_le_bound hwide
  have haligned := toNat_and_not_pageMask (length + offset + pageMask)
  rw [hsumNat, hspanNat, toNat_pageMask] at haligned
  rw [hsum, Traced.pure_bind, ← haligned]
  by_cases hzero : (length + offset + pageMask) &&& ~~~pageMask = 0
  · rw [if_pos hzero, if_pos (.inl ((eq_zero_iff _).1 hzero))]
    exact ⟨none, rfl, agrees_none⟩
  rw [if_neg hzero]
  obtain ⟨r, hr, hagrees⟩ := room_spec (address &&& ~~~pageMask)
    ((length + offset + pageMask) &&& ~~~pageMask) fun hge ↦ haddress (BitVec.le_trans hge hoffset)
  refine ⟨r, hr, ?_⟩
  rwa [if_congr (or_iff_right fun h ↦ hzero ((eq_zero_iff _).2 h)) rfl rfl]

theorem memoryPrepareRange_spec (address length : Word64) :
    Agrees (memoryPrepareRange address length).value
        (Space.memoryPrepareRange address.toNat length.toNat) ∧
      ((memoryPrepareRange address length).wrapped = true ↔
        address.toNat % pageSize = 0 ∧ length.toNat = 2 ^ 64 - pageSize) := by
  obtain ⟨hbound, hboundNat⟩ := sub_uint64Max pageMask
  have hguard : (length = 0 ∨ address &&& pageMask ≠ 0 ∨ length > uint64Max - pageMask) ↔
      (length.toNat = 0 ∨ address.toNat % pageSize ≠ 0 ∨
        length.toNat > sizeMax - (pageSize - 1)) := by
    rw [eq_zero_iff, and_pageMask_ne_zero, gt_iff_lt, BitVec.lt_def, hboundNat, toNat_pageMask]
  rw [memoryPrepareRange, Space.memoryPrepareRange, hbound, Traced.pure_bind]
  by_cases hbad : length = 0 ∨ address &&& pageMask ≠ 0 ∨ length > uint64Max - pageMask
  · rw [if_pos hbad, if_pos (hguard.1 hbad)]
    refine ⟨agrees_none, ?_⟩
    have hnat := hguard.1 hbad
    rw [sizeMax, pageSize] at hnat
    simp only [Traced.wrapped_pure, Bool.false_eq_true, false_iff, pageSize]
    omega
  rw [if_neg hbad, if_neg (hguard.not.1 hbad)]
  -- `length + MINIMM_PAGE_SIZE` may wrap, but then subtracting one wraps back
  have hword : length + pageSizeWord - 1 = length + pageMask := add_sub_assoc _ _ _
  have hle : ¬length > uint64Max - pageMask := fun h ↦ hbad (.inr (.inr h))
  have haligned := toNat_and_not_pageMask (length + pageMask)
  rw [(add_of_le_bound hle).2, toNat_pageMask] at haligned
  have hnat : length.toNat + pageSize - 1 = length.toNat + (pageSize - 1) := rfl
  have hlimit : address ≥ addressLimit ↔ address.toNat ≥ userAddressLimit := by
    rw [ge_iff_le, BitVec.le_def, toNat_addressLimit]
  obtain ⟨r, hr, hagrees⟩ : ∃ r, (if address ≥ addressLimit then pure none
      else do
        let room ← sub addressLimit address
        if (length + pageMask) &&& ~~~pageMask > room then pure none
        else do
          let stop ← add address ((length + pageMask) &&& ~~~pageMask)
          pure (some (Range.mk address stop (((length + pageMask) &&& ~~~pageMask) /
            pageSizeWord)))) = (pure r : Traced _) ∧
      Agrees r (if address.toNat ≥ userAddressLimit ∨
          ((length + pageMask) &&& ~~~pageMask).toNat > userAddressLimit - address.toNat then none
        else some ⟨address.toNat,
          address.toNat + ((length + pageMask) &&& ~~~pageMask).toNat⟩) := by
    by_cases hhigh : address ≥ addressLimit
    · rw [if_pos hhigh, if_pos (.inl (hlimit.1 hhigh))]
      exact ⟨none, rfl, agrees_none⟩
    · rw [if_neg hhigh, if_congr (or_iff_right (hlimit.not.1 hhigh)) rfl rfl]
      exact room_spec _ _ hhigh
  have hvalue : ∀ x : Word64, (sub (add length pageSizeWord).value x).value =
      length + pageSizeWord - x := fun _ ↦ rfl
  simp only [Traced.value_bind, Traced.wrapped_bind, hvalue, hword, hr, Traced.value_pure,
    Traced.wrapped_pure, Bool.or_false]
  rw [hnat, ← haligned]
  refine ⟨hagrees, ?_⟩
  have hsum : (length + pageSizeWord).toNat = (length.toNat + 4096) % 2 ^ 64 :=
    BitVec.toNat_add _ _
  have hguardNat := hguard.not.1 hbad
  simp only [not_or, not_not, sizeMax, pageSize] at hguardNat
  simp only [add, sub, BitVec.uaddOverflow, BitVec.usubOverflow, hsum, Bool.or_eq_true,
    decide_eq_true_iff, show pageSizeWord.toNat = 4096 from rfl, pageSize]
  have hone : (1 : Word64).toNat = 1 := rfl
  omega

/-! ## Smallest ranges -/

/-- The least multiple of the page size from `n` on. -/
def pageEnd (n : ℕ) : ℕ := (n + (pageSize - 1)) / pageSize * pageSize

/-- `r` is the smallest page-aligned range with all of `[start, stop)`. -/
structure Smallest (start stop : ℕ) (r : MemoryRange) : Prop where
  startAligned : r.start % pageSize = 0
  stopAligned : r.stop % pageSize = 0
  start_le : r.start ≤ start
  le_stop : stop ≤ r.stop
  least : ∀ a b, a % pageSize = 0 → b % pageSize = 0 → a ≤ start → stop ≤ b →
    a ≤ r.start ∧ r.stop ≤ b

theorem smallest_pages (start stop : ℕ) :
    Smallest start stop ⟨Space.pageOf start, pageEnd stop⟩ := by
  refine ⟨?_, ?_, ?_, ?_, fun a b ha hb hastart hstopb ↦ ?_⟩ <;>
    simp only [Space.pageOf, pageEnd, pageSize] at * <;> omega

theorem memoryPrepareRange_eq (address length : ℕ) : Space.memoryPrepareRange address length =
    if length ≠ 0 ∧ address % pageSize = 0 ∧ pageEnd (address + length) ≤ userAddressLimit then
      some ⟨Space.pageOf address, pageEnd (address + length)⟩
    else none := by
  rw [Space.memoryPrepareRange]
  dsimp only
  by_cases hfits : length ≠ 0 ∧ address % pageSize = 0 ∧
      pageEnd (address + length) ≤ userAddressLimit
  · rw [if_pos hfits]
    simp only [pageEnd, pageSize, userAddressLimit] at hfits
    rw [if_neg (by rw [sizeMax, pageSize]; omega),
      if_neg (by rw [userAddressLimit, pageSize]; omega)]
    simp only [Option.some.injEq, MemoryRange.mk.injEq, Space.pageOf, pageEnd, pageSize]
    omega
  · rw [if_neg hfits]
    split_ifs with hbad hroom
    · rfl
    · rfl
    · simp only [pageEnd, pageSize, userAddressLimit] at hfits hbad hroom
      omega

theorem memoryPrepareLockRange_eq (address length : ℕ) :
    Space.memoryPrepareLockRange address length =
      if length ≠ 0 ∧ pageEnd (address + length) ≤ userAddressLimit then
        some ⟨Space.pageOf address, pageEnd (address + length)⟩
      else none := by
  rw [Space.memoryPrepareLockRange]
  dsimp only
  by_cases hfits : length ≠ 0 ∧ pageEnd (address + length) ≤ userAddressLimit
  · rw [if_pos hfits]
    simp only [pageEnd, pageSize, userAddressLimit] at hfits
    rw [if_neg (by rw [userAddressLimit, sizeMax, Space.pageOf, pageSize]; omega),
      if_neg (by rw [sizeMax, Space.pageOf, pageSize]; omega),
      if_neg (by rw [userAddressLimit, Space.pageOf, pageSize]; omega)]
    simp only [Option.some.injEq, MemoryRange.mk.injEq, Space.pageOf, pageEnd, pageSize, true_and]
    omega
  · rw [if_neg hfits]
    split_ifs with hbad hwide hroom
    · rfl
    · rfl
    · rfl
    · simp only [Space.pageOf, pageEnd, pageSize, userAddressLimit] at hfits hbad hroom
      omega

/-! ## What is accepted -/

/-- `minimm_mapping_align_length` and then one of the range checks, as the calls of `mapping.c` do
it. -/
def mappingRange (check : Word64 → Word64 → Traced (Option Word64)) (start length : Word64) :
    Traced (Option MemoryRange) := do
  match ← mappingAlignLength length with
  | none => pure none
  | some aligned => do
    match ← check start aligned with
    | none => pure none
    | some stop => pure (some ⟨start.toNat, stop.toNat⟩)

/-- A request is accepted exactly when it is nonempty, admissible, and rounded to pages ends within
the addresses of users, and it becomes the smallest range of pages. -/
structure Exact (admissible : Prop) (address length : ℕ) (r : Option MemoryRange) : Prop where
  accepts : r.isSome ↔
    length ≠ 0 ∧ admissible ∧ pageEnd (address + length) ≤ userAddressLimit
  smallest : ∀ x ∈ r, Smallest address (address + length) x

theorem exact_ite (admissible : Prop) [Decidable admissible] (address length : ℕ) :
    Exact admissible address length
      (if length ≠ 0 ∧ admissible ∧ pageEnd (address + length) ≤ userAddressLimit then
        some ⟨Space.pageOf address, pageEnd (address + length)⟩ else none) := by
  split_ifs with h
  · refine ⟨by simpa using h, ?_⟩
    rintro _ ⟨⟩
    exact smallest_pages _ _
  · exact ⟨by simpa using h, nofun⟩

theorem mappingAlignLength_eq (length : ℕ) : Space.mappingAlignLength length =
    if length ≠ 0 ∧ pageEnd length ≤ userAddressLimit then some (pageEnd length) else none := by
  rw [Space.mappingAlignLength]
  dsimp only
  by_cases hfits : length ≠ 0 ∧ pageEnd length ≤ userAddressLimit
  · rw [if_pos hfits]
    simp only [pageEnd, pageSize, userAddressLimit] at hfits
    rw [if_neg (by rw [sizeMax, pageSize]; omega),
      if_neg (by rw [userAddressLimit, pageSize]; omega)]
    rfl
  · rw [if_neg hfits]
    split_ifs with hbad hlarge
    · rfl
    · rfl
    · simp only [pageEnd, pageSize, userAddressLimit] at hfits hbad hlarge
      omega

theorem pageEnd_add {start : ℕ} (h : start % pageSize = 0) (length : ℕ) :
    pageEnd (start + length) = start + pageEnd length := by
  simp only [pageEnd, pageSize] at *
  omega

theorem mappingRange_exact (lowest start length : Word64) : ∃ r,
    mappingRange (rangeIsValid lowest) start length = pure r ∧
      Exact (lowest.toNat ≤ start.toNat ∧ start.toNat % pageSize = 0) start.toNat
        length.toNat r := by
  obtain ⟨aligned, halign, halignNat⟩ := mappingAlignLength_spec length
  rw [mappingAlignLength_eq] at halignNat
  rw [mappingRange, halign, Traced.pure_bind]
  cases aligned with
  | none =>
    have hlong : ¬(length.toNat ≠ 0 ∧ pageEnd length.toNat ≤ userAddressLimit) := by
      intro h
      rw [if_pos h] at halignNat
      cases halignNat
    refine ⟨none, rfl, ?_, nofun⟩
    simp only [Option.isSome_none, Bool.false_eq_true, false_iff]
    rintro ⟨hne, ⟨-, hpage⟩, hend⟩
    rw [pageEnd_add hpage] at hend
    exact hlong ⟨hne, by omega⟩
  | some aligned =>
    split_ifs at halignNat with hfits
    swap
    · cases halignNat
    have haligned : aligned.toNat = pageEnd length.toNat := Option.some.inj halignNat
    obtain ⟨stop, hstop, hsome, hstopNat⟩ := rangeIsValid_spec lowest start aligned
    dsimp only
    rw [hstop, Traced.pure_bind]
    rw [haligned] at hsome hstopNat
    cases stop with
    | none =>
      refine ⟨none, rfl, ?_, nofun⟩
      simp only [Option.isSome_none, Bool.false_eq_true, false_iff] at hsome ⊢
      rintro ⟨hne, ⟨hlow, hpage⟩, hend⟩
      rw [pageEnd_add hpage] at hend
      have hpos : 0 < pageEnd length.toNat := by
        rw [pageEnd, pageSize]
        omega
      exact hsome ⟨hlow, hpage, by omega, by omega⟩
    | some stop =>
      obtain ⟨hlow, hpage, hlt, hroom⟩ := hsome.1 rfl
      have hend : stop.toNat = pageEnd (start.toNat + length.toNat) := by
        rw [hstopNat stop rfl, pageEnd_add hpage]
      have hpageOf : Space.pageOf start.toNat = start.toNat := by
        rw [Space.pageOf, hpage, Nat.sub_zero]
      refine ⟨some ⟨start.toNat, stop.toNat⟩, rfl, ?_, ?_⟩
      · simp only [Option.isSome_some, true_iff]
        rw [pageEnd_add hpage]
        exact ⟨hfits.1, ⟨hlow, hpage⟩, by omega⟩
      · rintro _ ⟨⟩
        have hsmallest := smallest_pages start.toNat (start.toNat + length.toNat)
        rwa [hpageOf, ← hend] at hsmallest

/-- The checks on ranges accept what they should and return the smallest range of pages. No
operation wraps but one: for a length of `2 ^ 64 - 4096` the sum of
`minimm_memory_prepare_range` does, and the subtraction that follows wraps back. -/
theorem ranges_exact (address length : Word64) :
    (∃ r, mappingRange mappingRangeIsValid address length = pure r ∧
      Exact (mmapMinAddress ≤ address.toNat ∧ address.toNat % pageSize = 0) address.toNat
        length.toNat r) ∧
    (∃ r, mappingRange mappingOperationRangeIsValid address length = pure r ∧
      Exact (address.toNat % pageSize = 0) address.toNat length.toNat r) ∧
    (∃ r, memoryPrepareLockRange address length = pure r ∧
      Exact True address.toNat length.toNat (r.map Range.memoryRange)) ∧
    Exact (address.toNat % pageSize = 0) address.toNat length.toNat
      ((memoryPrepareRange address length).value.map Range.memoryRange) ∧
    ((memoryPrepareRange address length).wrapped = true ↔
      address.toNat % pageSize = 0 ∧ length.toNat = 2 ^ 64 - pageSize) := by
  obtain ⟨r, hlock, hlockAgrees⟩ := memoryPrepareLockRange_spec address length
  obtain ⟨hprepare, hwrapped⟩ := memoryPrepareRange_spec address length
  refine ⟨mappingRange_exact minAddress address length, ?_, ⟨r, hlock, ?_⟩, ?_, hwrapped⟩
  · obtain ⟨r', hr', hexact⟩ := mappingRange_exact 0 address length
    refine ⟨r', hr', ?_, hexact.smallest⟩
    rw [hexact.accepts]
    simp
  · have hexact := exact_ite True address.toNat length.toNat
    rw [hlockAgrees.range, memoryPrepareLockRange_eq]
    simpa using hexact
  · rw [hprepare.range, memoryPrepareRange_eq]
    exact exact_ite _ _ _

/-- The sum of `minimm_memory_prepare_range` wraps. -/
theorem memoryPrepareRange_wraps : (memoryPrepareRange 0 (0 - pageSizeWord)).wrapped = true := by
  decide

end WordRange

end MiniMM
