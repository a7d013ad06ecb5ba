import MiniMM.Vma.Ranges

/-!
# The search tree of a snapshot

The tree built over ordered ranges finds the range that contains an address.
-/

namespace MiniMM

open Vma

/-! ## What a tree holds -/

namespace VmaTree

def leaf (t : VmaTree 0) : List Vma := t

def children {h : ℕ} (t : VmaTree (h + 1)) : List (ℕ × VmaTree h) := t

/-- The ranges in the leaves. -/
def ranges : (h : ℕ) → VmaTree h → List Vma
  | 0, t => t.leaf
  | h + 1, t => t.children.flatMap fun c ↦ ranges h c.2

/-- The number of slots in use, node by node. -/
def slots : (h : ℕ) → VmaTree h → List ℕ
  | 0, t => [t.leaf.length]
  | h + 1, t => t.children.length :: t.children.flatMap fun c ↦ slots h c.2

/-- No node is empty, and each child is filed under the end of its last range. -/
def WellBuilt : (h : ℕ) → VmaTree h → Prop
  | 0, t => t.leaf ≠ []
  | h + 1, t => t.children ≠ [] ∧
      ∀ c ∈ t.children, WellBuilt h c.2 ∧ c.1 = lastStop (ranges h c.2)

theorem WellBuilt.ranges_ne_nil {h : ℕ} {t : VmaTree h} (ht : WellBuilt h t) : ranges h t ≠ [] := by
  induction h with
  | zero => exact ht
  | succ h ih =>
    obtain ⟨hne, hall⟩ := ht
    obtain ⟨c, hc⟩ := List.exists_mem_of_ne_nil _ hne
    intro hnil
    exact ih (hall c hc).1 (List.flatMap_eq_nil_iff.1 hnil c hc)

end VmaTree

/-! ## Building -/

section Chunks

variable {α : Type} {size fuel : ℕ} {xs : List α}

theorem chunks_spec (hsize : 0 < size) (hfuel : xs.length ≤ fuel) :
    (chunks size fuel xs).flatten = xs ∧
      ∀ c ∈ chunks size fuel xs, c ≠ [] ∧ c.length ≤ size := by
  induction fuel generalizing xs with
  | zero =>
    obtain rfl : xs = [] := List.length_eq_zero_iff.1 (Nat.le_zero.1 hfuel)
    simp [chunks]
  | succ fuel ih =>
    rw [chunks]
    split_ifs with hnil
    · simp [List.isEmpty_iff.1 hnil]
    · have hne : xs ≠ [] := fun h ↦ hnil (List.isEmpty_iff.2 h)
      have hpos := List.length_pos_iff.2 hne
      obtain ⟨hflat, hall⟩ :=
        ih (show (xs.drop size).length ≤ fuel by rw [List.length_drop]; omega)
      refine ⟨by rw [List.flatten_cons, hflat, List.take_append_drop], ?_⟩
      refine List.forall_mem_cons.2 ⟨⟨?_, ?_⟩, hall⟩
      · intro htake
        rcases List.take_eq_nil_iff.1 htake with h | h
        · omega
        · exact hne h
      · rw [List.length_take]
        exact min_le_left _ _

theorem length_chunks_le {k : ℕ} (hlen : xs.length ≤ size * k) :
    (chunks size fuel xs).length ≤ k := by
  induction fuel generalizing xs k with
  | zero => simp [chunks]
  | succ fuel ih =>
    rw [chunks]
    split_ifs with hnil
    · simp
    · cases k with
      | zero =>
        have hpos := List.length_pos_iff.2 fun h ↦ hnil (List.isEmpty_iff.2 h)
        omega
      | succ k =>
        rw [List.length_cons]
        refine Nat.succ_le_succ (ih ?_)
        rw [List.length_drop]
        rw [Nat.mul_succ] at hlen
        omega

end Chunks

variable {may : Bool → Prop}

theorem buildAll_spec {α β : Type} {build : α → Code (Option β)} {g : β → α} {P : β → Prop}
    {xs : List α} (h : ∀ x ∈ xs, (build x).Mallocs may fun r ↦
      (r = none ∧ may false) ∨ ∃ y, r = some y ∧ g y = x ∧ P y) :
    (buildAll build xs).Mallocs may fun r ↦
      (r = none ∧ may false) ∨ ∃ ys, r = some ys ∧ ys.map g = xs ∧ ∀ y ∈ ys, P y := by
  induction xs with
  | nil => exact Or.inr ⟨[], rfl, rfl, by simp⟩
  | cons x xs ih =>
    rw [buildAll]
    refine (h x (by simp)).bind fun y hy ↦ ?_
    rcases hy with ⟨rfl, hmay⟩ | ⟨y, rfl, hg, hP⟩
    · exact Or.inl ⟨rfl, hmay⟩
    · refine (ih fun z hz ↦ h z (by simp [hz])).bind fun ys hys ↦ ?_
      rcases hys with ⟨rfl, hmay⟩ | ⟨ys, rfl, hmap, hall⟩
      · exact Or.inl ⟨rfl, hmay⟩
      · exact Or.inr ⟨y :: ys, rfl, by rw [List.map_cons, hg, hmap],
          List.forall_mem_cons.2 ⟨hP, hall⟩⟩

theorem vmaTreeBuildNode_spec {h : ℕ} {ranges : List Vma} (hne : ranges ≠ [])
    (hlen : ranges.length ≤ vmaTreeFanout ^ (h + 1)) :
    (vmaTreeBuildNode h ranges).Mallocs may fun r ↦ (r = none ∧ may false) ∨ ∃ t, r = some t ∧
      VmaTree.ranges h t = ranges ∧ VmaTree.WellBuilt h t ∧
        ∀ n ∈ VmaTree.slots h t, n ≤ vmaTreeFanout := by
  induction h generalizing ranges with
  | zero =>
    refine Code.Mallocs.malloc (fun hmay ↦ Or.inl ⟨rfl, hmay⟩)
      (Or.inr ⟨ranges, rfl, rfl, hne, ?_⟩)
    intro n hn
    rw [List.mem_singleton.1 hn]
    simpa [VmaTree.leaf] using hlen
  | succ h ih =>
    have hpos : 0 < vmaTreeFanout ^ (h + 1) := by
      unfold vmaTreeFanout
      positivity
    obtain ⟨hflat, hchunk⟩ := chunks_spec hpos (le_refl ranges.length)
    refine Code.Mallocs.malloc (fun hmay ↦ Or.inl ⟨rfl, hmay⟩) ?_
    refine (buildAll_spec (g := fun c ↦ VmaTree.ranges h c.2) (P := fun c ↦
      (VmaTree.WellBuilt h c.2 ∧ c.1 = lastStop (VmaTree.ranges h c.2)) ∧
        ∀ n ∈ VmaTree.slots h c.2, n ≤ vmaTreeFanout) fun chunk hc ↦ ?_).mono ?_
    · refine (ih (hchunk chunk hc).1 (hchunk chunk hc).2).bind fun child hchild ↦ ?_
      rcases hchild with ⟨rfl, hmay⟩ | ⟨t, rfl, hr, hw, hs⟩
      · exact Or.inl ⟨rfl, hmay⟩
      · exact Or.inr ⟨_, rfl, hr, ⟨hw, by rw [hr]⟩, hs⟩
    · rintro r (⟨rfl, hmay⟩ | ⟨cs, rfl, hmap, hall⟩)
      · exact Or.inl ⟨rfl, hmay⟩
      · have hranges : cs.flatMap (fun c ↦ VmaTree.ranges h c.2) = ranges := by
          rw [List.flatMap_def, hmap, hflat]
        refine Or.inr ⟨cs, rfl, hranges, ⟨?_, fun c hc ↦ (hall c hc).1⟩, ?_⟩
        · rintro rfl
          exact hne hranges.symm
        · refine List.forall_mem_cons.2 ⟨?_, fun n hn ↦ ?_⟩
          · have hlength := congrArg List.length hmap
            rw [List.length_map] at hlength
            refine (le_of_eq hlength).trans (length_chunks_le ?_)
            rwa [← Nat.pow_succ]
          · obtain ⟨c, hc, hn⟩ := List.mem_flatMap.1 hn
            exact (hall c hc).2 n hn

/-- The loop over the capacities ends at a height with room for all ranges. -/
theorem vmaTreeHeight_spec {count fuel h k : ℕ}
    (hk : vmaTreeHeight count fuel (vmaTreeFanout ^ (h + 1)) h = some k) :
    count ≤ vmaTreeFanout ^ (k + 1) := by
  induction fuel generalizing h with
  | zero => cases hk
  | succ fuel ih =>
    rw [vmaTreeHeight] at hk
    split_ifs at hk with hcount hcap
    · rw [← Nat.pow_succ] at hk
      exact ih hk
    · cases hk
      omega

/-- The root of a snapshot of these ranges. -/
def RootOk (ranges : List Vma) : Option ((h : ℕ) × VmaTree h) → Prop
  | none => ranges = []
  | some root => VmaTree.ranges root.1 root.2 = ranges ∧ VmaTree.WellBuilt root.1 root.2 ∧
      ∀ n ∈ VmaTree.slots root.1 root.2, n ≤ vmaTreeFanout

theorem vmaTreeBuild_spec (ranges : List Vma) :
    (vmaTreeBuild ranges).Mallocs may fun r ↦ (r.1 = .ok ∧ RootOk ranges r.2) ∨
      (r = (.outOfMemory, none) ∧ may false) ∨
      (r = (.noSpace, none) ∧ vmaTreeHeight ranges.length 64 vmaTreeFanout 0 = none) := by
  rw [vmaTreeBuild]
  split_ifs with hnil
  · exact Or.inl ⟨rfl, List.isEmpty_iff.1 hnil⟩
  · have hne : ranges ≠ [] := fun h ↦ hnil (List.isEmpty_iff.2 h)
    split
    · next hheight => exact Or.inr (Or.inr ⟨rfl, hheight⟩)
    · next h hheight =>
      have hlen := vmaTreeHeight_spec (h := 0) (by simpa using hheight)
      refine (vmaTreeBuildNode_spec hne hlen).bind fun root hroot ↦ ?_
      rcases hroot with ⟨rfl, hmay⟩ | ⟨t, rfl, ht⟩
      · exact Or.inr (Or.inl ⟨rfl, hmay⟩)
      · exact Or.inl ⟨rfl, ht⟩

/-! ## Searching -/

theorem stop_le_lastStop {ranges : List Vma} (h : Ordered ranges) {v : Vma} (hv : v ∈ ranges) :
    v.stop ≤ lastStop ranges := by
  induction ranges using List.reverseRecOn with
  | nil => cases hv
  | append_singleton rest last _ =>
    rw [lastStop, List.getLast?_append, List.getLast?_singleton]
    rcases List.mem_append.1 hv with hv | hv
    · have hle := (Ordered.append_iff.1 h).2.2 v hv last (by simp)
      have hlt := (h.valid last (by simp)).lt
      simp only [Option.or, Option.map_some, Option.getD_some]
      omega
    · rw [List.mem_singleton.1 hv]
      exact le_rfl

theorem exists_lastStop {ranges : List Vma} (hne : ranges ≠ []) :
    ∃ v ∈ ranges, v.stop = lastStop ranges := by
  refine ⟨ranges.getLast hne, List.getLast_mem hne, ?_⟩
  rw [lastStop, List.getLast?_eq_some_getLast hne]
  rfl

theorem Ordered.lt_of_lt {ranges : List Vma} (h : Ordered ranges) {i j : ℕ} {u v : Vma}
    (hi : ranges[i]? = some u) (hj : ranges[j]? = some v) (hij : i < j) : u.stop ≤ v.start := by
  obtain ⟨hi', rfl⟩ := List.getElem?_eq_some_iff.1 hi
  obtain ⟨hj', rfl⟩ := List.getElem?_eq_some_iff.1 hj
  exact List.pairwise_iff_getElem.1 h.sorted i j hi' hj' hij

theorem exists_getElem? {ranges : List Vma} {v : Vma} (hv : v ∈ ranges) :
    ∃ i, i < ranges.length ∧ ranges[i]? = some v := by
  obtain ⟨i, hi, rfl⟩ := List.getElem_of_mem hv
  exact ⟨i, hi, List.getElem?_eq_getElem hi⟩

theorem lookupLeaf_eq {ranges : List Vma} (h : Ordered ranges) (a : ℕ) :
    lookupLeaf ranges a = ranges.find? fun v ↦ v.contains a := by
  have hdesc : Search.Descends
      (fun i ↦ ((ranges[i]?).map fun v ↦ decide (v.start ≤ a)).getD false) ranges.length := by
    intro i j hij hj hp
    rcases Nat.lt_or_eq_of_le hij with hlt | rfl
    · have hu := List.getElem?_eq_getElem (hlt.trans hj)
      have hv := List.getElem?_eq_getElem hj
      have hle := h.lt_of_lt hu hv hlt
      have hlt' := (h.valid _ (List.mem_of_getElem? hu)).lt
      simp only [hu, hv, Option.map_some, Option.getD_some, decide_eq_true_eq] at hp ⊢
      omega
    · exact hp
  obtain ⟨hle, hbelow, habove⟩ := Search.partitionPoint_spec hdesc
  unfold lookupLeaf
  generalize Search.partitionPoint
    (fun i ↦ ((ranges[i]?).map fun v ↦ decide (v.start ≤ a)).getD false) ranges.length = low at *
  -- a range that contains the address stands below the point the search ends at
  have hindex : ∀ v i, ranges[i]? = some v → v.contains a = true → i < low := by
    intro v i hi hv
    by_contra hge
    have hp := habove i (Nat.le_of_not_lt hge) (List.getElem?_eq_some_iff.1 hi).1
    rw [contains_iff] at hv
    simp only [hi, Option.map_some, Option.getD_some, decide_eq_false_iff_not] at hp
    exact hp hv.1
  dsimp only
  split_ifs with hzero
  · symm
    refine List.find?_eq_none.2 fun v hv hc ↦ ?_
    obtain ⟨i, -, hi⟩ := exists_getElem? hv
    have := hindex v i hi hc
    omega
  · have hlast := List.getElem?_eq_getElem (show low - 1 < ranges.length by omega)
    generalize ranges[low - 1] = v at hlast
    have hstart : v.start ≤ a := by
      have hp := hbelow (low - 1) (by omega)
      simpa only [hlast, Option.map_some, Option.getD_some, decide_eq_true_eq] using hp
    rw [hlast, Option.filter_some]
    split_ifs with hstop
    · exact (h.find_iff.2 ⟨List.mem_of_getElem? hlast,
        contains_iff.2 ⟨hstart, by simpa using hstop⟩⟩).symm
    · symm
      refine List.find?_eq_none.2 fun u hu hc ↦ ?_
      obtain ⟨i, -, hi⟩ := exists_getElem? hu
      have hlt := hindex u i hi hc
      rw [contains_iff] at hc
      rw [decide_eq_true_eq] at hstop
      rcases Nat.lt_or_eq_of_le (Nat.le_pred_of_lt hlt) with hlt' | heq
      · have := h.lt_of_lt hi hlast hlt'
        omega
      · rw [Nat.pred_eq_sub_one] at heq
        rw [heq, hlast] at hi
        cases hi
        omega

theorem lookupNode_eq {h : ℕ} {t : VmaTree h} (ht : VmaTree.WellBuilt h t)
    (hord : Ordered (VmaTree.ranges h t)) (a : ℕ) :
    lookupNode h t a = (VmaTree.ranges h t).find? fun v ↦ v.contains a := by
  induction h with
  | zero => exact lookupLeaf_eq hord a
  | succ h ih =>
    obtain ⟨-, hall⟩ := ht
    change (t.children.find? fun c ↦ decide (a < c.1)).bind (fun c ↦ lookupNode h c.2 a) =
      (t.children.flatMap fun c ↦ VmaTree.ranges h c.2).find? fun v ↦ v.contains a
    have hord' : Ordered (t.children.flatMap fun c ↦ VmaTree.ranges h c.2) := hord
    generalize t.children = cs at hall hord'
    -- the children to the left of the address have nothing for it, nor do those to the right
    induction cs with
    | nil => rfl
    | cons c cs ihcs =>
      obtain ⟨⟨hbuilt, hkey⟩, hrest⟩ := List.forall_mem_cons.1 hall
      rw [List.flatMap_cons] at hord'
      obtain ⟨hc, hcs, hcross⟩ := Ordered.append_iff.1 hord'
      rw [List.find?_cons, List.flatMap_cons, List.find?_append]
      by_cases ha : a < c.1
      · rw [decide_eq_true ha, Option.bind_some, ih hbuilt hc]
        have hnone : (cs.flatMap fun c ↦ VmaTree.ranges h c.2).find?
            (fun v ↦ v.contains a) = none := by
          refine List.find?_eq_none.2 fun v hv hva ↦ ?_
          obtain ⟨w, hw, hstop⟩ := exists_lastStop hbuilt.ranges_ne_nil
          have := hcross w hw v hv
          rw [contains_iff] at hva
          omega
        rw [hnone, Option.or_none]
      · rw [decide_eq_false ha]
        have hnone : (VmaTree.ranges h c.2).find? (fun v ↦ v.contains a) = none := by
          refine List.find?_eq_none.2 fun v hv hva ↦ ?_
          have := stop_le_lastStop hc hv
          rw [contains_iff] at hva
          omega
        rw [hnone, Option.none_or]
        exact ihcs hrest hcs

namespace VmaSnapshot

theorem lookup_eq {s : VmaSnapshot} (hord : Ordered s.ranges) (hroot : RootOk s.ranges s.root)
    (a : ℕ) : s.lookup a = s.ranges.find? fun v ↦ v.contains a := by
  rw [lookup]
  split_ifs with ha
  · symm
    refine List.find?_eq_none.2 fun v hv hva ↦ ?_
    have := (hord.valid v hv).limit
    rw [contains_iff] at hva
    omega
  · cases hr : s.root with
    | none =>
      rw [hr] at hroot
      simp only [RootOk] at hroot
      rw [hroot]
      rfl
    | some root =>
      rw [hr] at hroot
      obtain ⟨hranges, hbuilt, -⟩ := hroot
      rw [Option.bind_some, lookupNode_eq hbuilt (hranges ▸ hord), hranges]

/-- `minimm_vma_snapshot_find_next` finds the first range that ends above an address. -/
theorem findNext_eq {s : VmaSnapshot} (hord : Ordered s.ranges) (a : ℕ) :
    s.findNext a = if a ≥ userAddressLimit then none
      else s.ranges.find? fun v ↦ !decide (v.stop ≤ a) := by
  rw [findNext]
  split_ifs
  · rfl
  · refine Search.getElem?_partitionPoint (q := fun v : Vma ↦ decide (v.stop ≤ a)) ?_
    intro i j hij hj hp
    rcases Nat.lt_or_eq_of_le hij with hlt | rfl
    · have hu := List.getElem?_eq_getElem (hlt.trans hj)
      have hv := List.getElem?_eq_getElem hj
      have hle := hord.lt_of_lt hu hv hlt
      have hlt' := (hord.valid _ (List.mem_of_getElem? hv)).lt
      simp only [hu, hv, Option.map_some, Option.getD_some, decide_eq_true_eq] at hp ⊢
      omega
    · exact hp

theorem lookup_iff_findNext {s : VmaSnapshot} (hord : Ordered s.ranges)
    (hroot : RootOk s.ranges s.root) {a : ℕ} {v : Vma} :
    s.lookup a = some v ↔ s.findNext a = some v ∧ v.start ≤ a := by
  rw [lookup_eq hord hroot, hord.find_iff, findNext_eq hord, contains_iff]
  constructor
  · rintro ⟨hv, hstart, hstop⟩
    have hlimit := (hord.valid v hv).limit
    refine ⟨?_, hstart⟩
    rw [if_neg (by omega)]
    obtain ⟨xs, ys, hsplit⟩ := List.append_of_mem hv
    rw [hsplit] at hord ⊢
    refine List.find?_eq_some_iff_append.2 ⟨by simpa using hstop, xs, ys, rfl, fun u hu ↦ ?_⟩
    have := (Ordered.append_iff.1 hord).2.2 u hu v (by simp)
    simp only [Bool.not_not, decide_eq_true_eq]
    omega
  · rintro ⟨hfind, hstart⟩
    split_ifs at hfind
    have hstop := List.find?_some hfind
    simp only [Bool.not_eq_true', decide_eq_false_iff_not] at hstop
    exact ⟨List.mem_of_find?_eq_some hfind, hstart, by omega⟩

end VmaSnapshot

end MiniMM
