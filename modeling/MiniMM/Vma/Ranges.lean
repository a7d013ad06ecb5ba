import MiniMM.Vma

/-!
# Lists of ranges

What a list of ranges means: the mapping of each address. Ascending valid ranges do not overlap, so
the mapping does not depend on the order of the list, and joining neighbours does not change it.
-/

namespace MiniMM

namespace Vma

/-- The range of an address. -/
def contains (v : Vma) (address : ℕ) : Bool :=
  decide (v.start ≤ address) && decide (address < v.stop)

/-- What a mapping says about one address: its backing and the offset there, the protection and its
ceiling, and the kind of the mapping. -/
structure View where
  mappingCookie : ℕ
  noteOffset : ℕ
  prot : Prot
  maxProt : Prot
  shared : Bool
  deriving DecidableEq, Repr

def view (v : Vma) (address : ℕ) : View :=
  ⟨v.mappingCookie, v.noteOffset + (address - v.start), v.prot, v.maxProt, v.shared⟩

/-- The parts of `minimm_vma_is_valid`. -/
structure Valid (v : Vma) : Prop where
  lt : v.start < v.stop
  limit : v.stop ≤ userAddressLimit
  startAligned : v.start % pageSize = 0
  stopAligned : v.stop % pageSize = 0
  offsetAligned : v.noteOffset % pageSize = 0
  prot : v.prot.isValid = true
  maxProt : v.maxProt.isValid = true
  within : v.prot.within v.maxProt = true
  offset : v.noteOffset + (v.stop - v.start) ≤ sizeMax

variable {u v w : Vma} {a : ℕ}

@[simp] theorem contains_iff : v.contains a = true ↔ v.start ≤ a ∧ a < v.stop := by
  simp [contains]

theorem pageRangeIsValid_iff {start stop : ℕ} : pageRangeIsValid start stop = true ↔
    start < stop ∧ stop ≤ userAddressLimit ∧ start % pageSize = 0 ∧ stop % pageSize = 0 := by
  simp [pageRangeIsValid, and_assoc]

theorem isValid_iff : v.isValid = true ↔ v.Valid := by
  have hlimit : userAddressLimit < sizeMax := by decide
  constructor
  · intro h
    simp only [isValid, Bool.and_eq_true, decide_eq_true_eq, pageRangeIsValid_iff] at h
    obtain ⟨⟨⟨⟨⟨⟨hlt, hl, hs, he⟩, ho⟩, hp⟩, hm⟩, hw⟩, hoff⟩ := h
    exact ⟨hlt, hl, hs, he, ho, hp, hm, hw, by omega⟩
  · intro h
    have hoff := h.offset
    have hlt := h.lt
    have hl := h.limit
    simp only [isValid, Bool.and_eq_true, decide_eq_true_eq, pageRangeIsValid_iff]
    exact ⟨⟨⟨⟨⟨⟨h.lt, h.limit, h.startAligned, h.stopAligned⟩, h.offsetAligned⟩, h.prot⟩,
      h.maxProt⟩, h.within⟩, by omega⟩

theorem canMerge_iff (h : u.Valid) : u.canMerge v = true ↔ u.stop = v.start ∧
    u.mappingCookie = v.mappingCookie ∧ u.prot = v.prot ∧ u.maxProt = v.maxProt ∧
      u.shared = v.shared ∧ u.noteOffset + (u.stop - u.start) = v.noteOffset := by
  have hoff := h.offset
  have hsize : sizeMax < 2 ^ 64 := by decide
  simp only [canMerge, Bool.and_eq_true, decide_eq_true_eq, and_assoc,
    Nat.mod_eq_of_lt (lt_of_le_of_lt hoff hsize)]

/-- A range extended over its right neighbour. -/
def merge (u v : Vma) : Vma := { u with stop := v.stop }

theorem Valid.merge (hu : u.Valid) (hv : v.Valid) (h : u.canMerge v = true) :
    (u.merge v).Valid := by
  obtain ⟨hstop, -, -, -, -, hoff⟩ := (canMerge_iff hu).1 h
  have h1 := hu.lt
  have h2 := hv.lt
  have h3 := hv.offset
  refine ⟨?_, hv.limit, hu.startAligned, hv.stopAligned, hu.offsetAligned, hu.prot, hu.maxProt,
    hu.within, ?_⟩ <;> simp only [Vma.merge] <;> omega

theorem merge_view (hu : u.Valid) (hv : v.Valid) (h : u.canMerge v = true) :
    (u.merge v).contains a = (u.contains a || v.contains a) ∧
      (u.contains a = true → (u.merge v).view a = u.view a) ∧
      (v.contains a = true → (u.merge v).view a = v.view a) := by
  obtain ⟨hstop, hcookie, hprot, hmax, hshared, hoff⟩ := (canMerge_iff hu).1 h
  have h1 := hu.lt
  have h2 := hv.lt
  refine ⟨?_, fun _ ↦ rfl, fun hc ↦ ?_⟩
  · rw [Bool.eq_iff_iff, Bool.or_eq_true]
    simp only [contains_iff, Vma.merge]
    omega
  · rw [contains_iff] at hc
    simp only [view, Vma.merge, View.mk.injEq]
    exact ⟨hcookie, by omega, hprot, hmax, hshared⟩

end Vma

open Vma

/-- Valid ranges in ascending order. -/
structure Ordered (ranges : List Vma) : Prop where
  sorted : ranges.Pairwise fun u v ↦ u.stop ≤ v.start
  valid : ∀ v ∈ ranges, v.Valid

/-- What the ranges say about an address. -/
def viewAt (ranges : List Vma) (address : ℕ) : Option View :=
  (ranges.find? fun v ↦ v.contains address).map fun v ↦ v.view address

@[simp] theorem viewAt_nil (a : ℕ) : viewAt [] a = none := rfl

theorem viewAt_append (xs ys : List Vma) (a : ℕ) :
    viewAt (xs ++ ys) a = (viewAt xs a).or (viewAt ys a) := by
  rw [viewAt, List.find?_append, Option.map_or]
  rfl

namespace Ordered

variable {ranges xs ys : List Vma} {u v : Vma} {a : ℕ}

theorem nil : Ordered [] := ⟨List.Pairwise.nil, by simp⟩

theorem append_iff : Ordered (xs ++ ys) ↔ Ordered xs ∧ Ordered ys ∧
    ∀ u ∈ xs, ∀ v ∈ ys, u.stop ≤ v.start := by
  constructor
  · intro h
    obtain ⟨hx, hy, hxy⟩ := List.pairwise_append.1 h.sorted
    exact ⟨⟨hx, fun v hv ↦ h.valid v (by simp [hv])⟩,
      ⟨hy, fun v hv ↦ h.valid v (by simp [hv])⟩, hxy⟩
  · rintro ⟨hx, hy, hxy⟩
    refine ⟨List.pairwise_append.2 ⟨hx.sorted, hy.sorted, hxy⟩, fun v hv ↦ ?_⟩
    rcases List.mem_append.1 hv with hv | hv
    · exact hx.valid v hv
    · exact hy.valid v hv

theorem cons_iff : Ordered (v :: ys) ↔ v.Valid ∧ Ordered ys ∧ ∀ w ∈ ys, v.stop ≤ w.start := by
  constructor
  · intro h
    obtain ⟨hv, hy⟩ := List.pairwise_cons.1 h.sorted
    exact ⟨h.valid v (by simp), ⟨hy, fun w hw ↦ h.valid w (by simp [hw])⟩, hv⟩
  · rintro ⟨hv, hy, hvy⟩
    exact ⟨List.pairwise_cons.2 ⟨hvy, hy.sorted⟩, List.forall_mem_cons.2 ⟨hv, hy.valid⟩⟩

theorem eq_of_contains (h : Ordered ranges) (hu : u ∈ ranges) (hv : v ∈ ranges)
    (hua : u.contains a = true) (hva : v.contains a = true) : u = v := by
  rw [contains_iff] at hua hva
  by_contra hne
  have hpair : ranges.Pairwise fun u v ↦ u.stop ≤ v.start ∨ v.stop ≤ u.start :=
    h.sorted.imp Or.inl
  have : Std.Symm fun u v : Vma ↦ u.stop ≤ v.start ∨ v.stop ≤ u.start := ⟨fun _ _ h ↦ h.symm⟩
  rcases hpair.forall hu hv hne with hle | hle <;> omega

theorem find_iff (h : Ordered ranges) :
    ranges.find? (fun v ↦ v.contains a) = some u ↔ u ∈ ranges ∧ u.contains a = true := by
  constructor
  · intro hfind
    exact ⟨List.mem_of_find?_eq_some hfind, List.find?_some (p := fun v : Vma ↦ v.contains a) hfind⟩
  · rintro ⟨hu, hua⟩
    cases hfind : ranges.find? (fun v ↦ v.contains a) with
    | none => exact absurd hua (List.find?_eq_none.1 hfind u hu)
    | some v =>
      have hva := List.find?_some (p := fun v : Vma ↦ v.contains a) hfind
      rw [h.eq_of_contains (List.mem_of_find?_eq_some hfind) hu hva hua]

theorem viewAt_iff (h : Ordered ranges) {x : View} :
    viewAt ranges a = some x ↔ ∃ v ∈ ranges, v.contains a = true ∧ v.view a = x := by
  rw [viewAt, Option.map_eq_some_iff]
  constructor
  · rintro ⟨v, hv, hx⟩
    exact ⟨v, (h.find_iff.1 hv).1, (h.find_iff.1 hv).2, hx⟩
  · rintro ⟨v, hv, hva, hx⟩
    exact ⟨v, h.find_iff.2 ⟨hv, hva⟩, hx⟩

theorem viewAt_none_iff : viewAt ranges a = none ↔ ∀ v ∈ ranges, v.contains a = false := by
  rw [viewAt, Option.map_eq_none_iff, List.find?_eq_none]
  simp only [Bool.not_eq_true]

end Ordered

/-! ## Coalescing -/

/-- No two neighbours can be joined. -/
def Coalesced (ranges : List Vma) : Prop :=
  ranges.IsChain fun u v ↦ u.canMerge v = false

theorem ordered_merge {xs ys : List Vma} {u v : Vma} (h : Ordered (xs ++ u :: v :: ys))
    (hm : u.canMerge v = true) :
    Ordered (xs ++ u.merge v :: ys) ∧
      ∀ a, viewAt (xs ++ u.merge v :: ys) a = viewAt (xs ++ u :: v :: ys) a := by
  obtain ⟨hx, huv, hxu⟩ := Ordered.append_iff.1 h
  obtain ⟨hu, hvy, huy⟩ := Ordered.cons_iff.1 huv
  obtain ⟨hv, hy, hvys⟩ := Ordered.cons_iff.1 hvy
  constructor
  · refine Ordered.append_iff.2 ⟨hx, Ordered.cons_iff.2 ⟨hu.merge hv hm, hy, hvys⟩, ?_⟩
    intro w hw z hz
    rcases List.mem_cons.1 hz with rfl | hz
    · exact hxu w hw u (by simp)
    · exact hxu w hw z (by simp [hz])
  · intro a
    obtain ⟨hc, h1, h2⟩ := merge_view (a := a) hu hv hm
    rw [viewAt_append, viewAt_append]
    congr 1
    simp only [viewAt, List.find?_cons, hc]
    cases hua : u.contains a with
    | true => simp [h1 hua]
    | false =>
      cases hva : v.contains a with
      | true => simp [h2 hva]
      | false => simp

namespace VmaSnapshot

/-- One step of the loop: `output` is in reverse order, and `input` is still to come. -/
theorem coalesceStep_spec {output input : List Vma} {v : Vma}
    (h : Ordered (output.reverse ++ v :: input))
    (hc : output.IsChain fun u w ↦ w.canMerge u = false) :
    Ordered ((coalesceStep output v).reverse ++ input) ∧
      (∀ a, viewAt ((coalesceStep output v).reverse ++ input) a =
        viewAt (output.reverse ++ v :: input) a) ∧
      (coalesceStep output v).IsChain fun u w ↦ w.canMerge u = false := by
  cases output with
  | nil => exact ⟨h, fun _ ↦ rfl, List.isChain_singleton v⟩
  | cons last rest =>
    have hsplit : (last :: rest).reverse ++ v :: input = rest.reverse ++ last :: v :: input := by
      simp
    rw [hsplit] at h ⊢
    unfold coalesceStep
    dsimp only
    split_ifs with hm
    · obtain ⟨hord, hview⟩ := ordered_merge h hm
      have hsplit' : (last.merge v :: rest).reverse ++ input =
          rest.reverse ++ last.merge v :: input := by simp
      refine ⟨hsplit' ▸ hord, fun a ↦ (congrArg (viewAt · a) hsplit').trans (hview a), ?_⟩
      cases rest with
      | nil => exact List.isChain_singleton _
      | cons w rest =>
        rw [List.isChain_cons_cons] at hc ⊢
        exact hc
    · have hsplit' : (v :: last :: rest).reverse ++ input = rest.reverse ++
        last :: v :: input := by
        simp
      rw [hsplit']
      exact ⟨h, fun _ ↦ rfl, List.isChain_cons_cons.2 ⟨by simpa using hm, hc⟩⟩

theorem coalesceFold_spec {output input : List Vma} (h : Ordered (output.reverse ++ input))
    (hc : output.IsChain fun u w ↦ w.canMerge u = false) :
    Ordered (input.foldl coalesceStep output).reverse ∧
      (∀ a, viewAt (input.foldl coalesceStep output).reverse a =
        viewAt (output.reverse ++ input) a) ∧
      (input.foldl coalesceStep output).IsChain fun u w ↦ w.canMerge u = false := by
  induction input generalizing output with
  | nil => simpa using ⟨by simpa using h, hc⟩
  | cons v input ih =>
    obtain ⟨hord, hview, hchain⟩ := coalesceStep_spec h hc
    obtain ⟨hord', hview', hchain'⟩ := ih hord hchain
    exact ⟨hord', fun a ↦ (hview' a).trans (hview a), hchain'⟩

theorem coalesceRanges_spec {ranges : List Vma} (h : Ordered ranges) :
    Ordered (coalesceRanges ranges) ∧ Coalesced (coalesceRanges ranges) ∧
      ∀ a, viewAt (coalesceRanges ranges) a = viewAt ranges a := by
  obtain ⟨hord, hview, hchain⟩ :=
    coalesceFold_spec (show Ordered ([].reverse ++ ranges) from h) .nil
  exact ⟨hord, List.isChain_reverse.2 hchain, hview⟩

theorem coalesceRanges_eq {ranges : List Vma} (h : Coalesced ranges) :
    coalesceRanges ranges = ranges := by
  have hfold : ∀ (input output : List Vma),
      (output.reverse ++ input).IsChain (fun u v ↦ u.canMerge v = false) →
      input.foldl coalesceStep output = input.reverse ++ output := by
    intro input
    induction input with
    | nil => simp
    | cons v input ih =>
      intro output hchain
      have hstep : coalesceStep output v = v :: output := by
        cases output with
        | nil => rfl
        | cons last rest =>
          have hm : last.canMerge v = false := by
            rw [List.reverse_cons, List.append_assoc, List.singleton_append] at hchain
            exact (List.isChain_cons_cons.1 (List.isChain_append.1 hchain).2.1).1
          simp [coalesceStep, hm]
      rw [List.foldl_cons, hstep, ih (v :: output) (by simpa using hchain)]
      simp
  rw [coalesceRanges, hfold ranges [] h]
  simp

end VmaSnapshot

end MiniMM
