import MiniMM.MemoryApi
import MiniMM.Vma.Tree

/-!
# The operations on snapshots

Each operation builds a snapshot in good order, whose pages are those of the old one changed as the
operation says.
-/

namespace MiniMM

open Vma

/-- A snapshot in good order: its ranges ascend, none can be joined to its neighbour, and the tree
is the tree of its ranges. -/
structure VmaSnapshot.Good (s : VmaSnapshot) : Prop where
  ordered : Ordered s.ranges
  coalesced : Coalesced s.ranges
  root : RootOk s.ranges s.root

/-! ## How many ranges there can be -/

theorem Ordered.length_le {ranges : List Vma} (h : Ordered ranges) :
    ranges.length * pageSize ≤ lastStop ranges := by
  induction ranges using List.reverseRecOn with
  | nil => simp
  | append_singleton rest last ih =>
    obtain ⟨hrest, -, hcross⟩ := Ordered.append_iff.1 h
    have hlast := h.valid last (by simp)
    have hle : lastStop rest ≤ last.start := by
      cases hr : rest with
      | nil => simp [lastStop]
      | cons v vs =>
        have hne : rest ≠ [] := by simp [hr]
        obtain ⟨w, hw, hstop⟩ := exists_lastStop hne
        rw [← hr, ← hstop]
        exact hcross w hw last (by simp)
    have hpage : last.start + pageSize ≤ last.stop := by
      have h1 := hlast.lt
      have h2 := hlast.startAligned
      have h3 := hlast.stopAligned
      simp only [pageSize] at h2 h3 ⊢
      omega
    have hstop : lastStop (rest ++ [last]) = last.stop := by
      rw [lastStop, List.getLast?_append, List.getLast?_singleton]
      rfl
    have hrest' := ih hrest
    rw [hstop, List.length_append, List.length_singleton, Nat.add_mul, Nat.one_mul]
    omega

theorem Ordered.length_le_pages {ranges : List Vma} (h : Ordered ranges) :
    ranges.length ≤ userAddressLimit / pageSize := by
  rw [Nat.le_div_iff_mul_le (by decide)]
  rcases ranges.eq_nil_or_concat with rfl | ⟨rest, last, rfl⟩
  · simp
  · obtain ⟨v, hv, hstop⟩ := exists_lastStop (show rest.concat last ≠ [] by simp)
    exact h.length_le.trans (hstop ▸ (h.valid v hv).limit)

theorem vmaTreeHeight_isSome {count fuel h n : ℕ} (hcount : count ≤ vmaTreeFanout ^ (n + 1))
    (hn : vmaTreeFanout ^ (n + 1) ≤ sizeMax) (hfuel : n < h + fuel) (hh : h ≤ n) :
    (vmaTreeHeight count fuel (vmaTreeFanout ^ (h + 1)) h).isSome = true := by
  induction fuel generalizing h with
  | zero => omega
  | succ fuel ih =>
    rw [vmaTreeHeight]
    split_ifs with hlt hcap
    · have hpow : vmaTreeFanout ^ (h + 1) * vmaTreeFanout ≤ vmaTreeFanout ^ (n + 1) := by
        rw [← Nat.pow_succ]
        refine Nat.pow_le_pow_right (by decide) ?_
        by_contra hge
        obtain rfl : h = n := by omega
        omega
      have hfan : vmaTreeFanout = 16 := rfl
      rw [hfan] at hpow hcap hn
      omega
    · rw [← Nat.pow_succ]
      refine ih (by omega) ?_
      by_contra hge
      obtain rfl : h = n := by omega
      omega
    · rfl

theorem Ordered.height_isSome {ranges : List Vma} (h : Ordered ranges) :
    (vmaTreeHeight ranges.length 64 vmaTreeFanout 0).isSome = true := by
  have hlen := h.length_le_pages
  exact vmaTreeHeight_isSome (h := 0) (n := 9) (hlen.trans (by decide)) (by decide) (by decide)
    (by decide)

namespace VmaSnapshot

/-! ## Building a snapshot -/

variable {may : Bool → Prop}

/-- What the operations return: the snapshot of these ranges, or no memory for it. -/
def Makes (may : Bool → Prop) (p : Code (Status × Option VmaSnapshot)) (generation : ℕ)
    (ranges : List Vma) : Prop :=
  p.Mallocs may fun r ↦ (r = (.outOfMemory, none) ∧ may false) ∨ ∃ s : VmaSnapshot,
    r = (.ok, some s) ∧ s.Good ∧ s.generation = generation ∧ s.ranges = coalesceRanges ranges

theorem fromRanges_spec {ranges : List Vma} (h : Ordered ranges) (generation : ℕ) :
    Makes may (fromRanges ranges generation) generation ranges := by
  obtain ⟨hord, hcoal, -⟩ := coalesceRanges_spec h
  refine Code.Mallocs.malloc (fun hmay ↦ Or.inl ⟨rfl, hmay⟩) ?_
  refine (vmaTreeBuild_spec (coalesceRanges ranges)).bind fun r hr ↦ ?_
  rcases hr with ⟨hok, hroot⟩ | ⟨rfl, hmay⟩ | ⟨rfl, hnone⟩
  · obtain ⟨status, root⟩ := r
    cases hok
    exact Or.inr ⟨_, rfl, ⟨hord, hcoal, hroot⟩, rfl, rfl⟩
  · exact Or.inl ⟨rfl, hmay⟩
  · have := hord.height_isSome
    rw [hnone] at this
    cases this

theorem ofRanges_spec {ranges : List Vma} (h : Ordered ranges) (generation : ℕ) :
    Makes may (ofRanges ranges.length (some ranges) generation) generation ranges := by
  have hsize : ranges.length ≤ sizeMax / vmaSize := h.length_le_pages.trans (by decide)
  have halloc : (allocateRanges ranges.length).Mallocs may
      fun status ↦ status = .ok ∨ (status = .outOfMemory ∧ may false) := by
    rw [allocateRanges]
    split_ifs with hzero hbig
    · exact Or.inl rfl
    · omega
    · exact Code.Mallocs.malloc (fun hmay ↦ Or.inr ⟨rfl, hmay⟩) (Or.inl rfl)
  refine halloc.bind fun status hstatus ↦ ?_
  rcases hstatus with rfl | ⟨rfl, hmay⟩
  · exact fromRanges_spec h generation
  · exact Or.inl ⟨rfl, hmay⟩

/-- The code only has to build the snapshot of a list of ranges that says `view`. -/
def BuildsNext (s : VmaSnapshot) (p : Code (Status × Option VmaSnapshot))
    (view : ℕ → Option View) : Prop :=
  ∃ ranges : List Vma, p = s.nextSnapshot ranges.length (some ranges) ∧ Ordered ranges ∧
    ∀ a, viewAt ranges a = view a

theorem create_spec : Makes may create 1 [] := fromRanges_spec Ordered.nil 1

theorem clone_spec {s : VmaSnapshot} (h : s.Good) : Makes may s.clone s.generation s.ranges :=
  ofRanges_spec h.ordered _

/-- What an operation on a snapshot returns that has nothing to object. -/
inductive Outcome (may : Bool → Prop) (s : VmaSnapshot) (view : ℕ → Option View) :
    Status × Option VmaSnapshot → Prop where
  | outOfMemory : may false → Outcome may s view (.outOfMemory, none)
  | noSpace : s.generation = sizeMax → Outcome may s view (.noSpace, none)
  | ok {t : VmaSnapshot} : t.Good → t.generation = s.generation + 1 →
      (∀ a, viewAt t.ranges a = view a) → Outcome may s view (.ok, some t)

theorem BuildsNext.outcome {s : VmaSnapshot} {p : Code (Status × Option VmaSnapshot)}
    {view : ℕ → Option View} (h : s.BuildsNext p view) : p.Mallocs may (Outcome may s view) := by
  obtain ⟨ranges, rfl, hord, hview⟩ := h
  rw [nextSnapshot]
  split_ifs with hgen
  · exact .noSpace hgen
  · refine (ofRanges_spec hord _).mono fun r hr ↦ ?_
    rcases hr with ⟨rfl, hmay⟩ | ⟨t, rfl, hgood, hnext, hranges⟩
    · exact .outOfMemory hmay
    · refine .ok hgood hnext fun a ↦ ?_
      rw [hranges, (coalesceRanges_spec hord).2.2, hview]

/-! ## Insertion -/

theorem insertPosition_spec {ranges : List Vma} (h : Ordered ranges) (start : ℕ) :
    ∃ k ≤ ranges.length, Search.partitionPoint
        (fun i ↦ ((ranges[i]?).map fun u ↦ decide (u.start < start)).getD false) ranges.length = k ∧
      (∀ u ∈ ranges.take k, u.start < start) ∧ ∀ u ∈ ranges.drop k, start ≤ u.start := by
  have hdesc : Search.Descends
      (fun i ↦ ((ranges[i]?).map fun u ↦ decide (u.start < start)).getD false) ranges.length := by
    intro i j hij hj hp
    rcases Nat.lt_or_eq_of_le hij with hlt | rfl
    · have hu := List.getElem?_eq_getElem (hlt.trans hj)
      have hv := List.getElem?_eq_getElem hj
      have hle := h.lt_of_lt hu hv hlt
      have hlt' := (h.valid _ (List.mem_of_getElem? hu)).lt
      simp only [hu, hv, Option.map_some, Option.getD_some, decide_eq_true_eq] at hp ⊢
      omega
    · exact hp
  obtain ⟨hle, hbelow, habove⟩ := Search.partitionPoint_spec hdesc
  refine ⟨_, hle, rfl, fun u hu ↦ ?_, fun u hu ↦ ?_⟩
  · obtain ⟨i, hi, rfl⟩ := List.getElem_of_mem hu
    rw [List.length_take] at hi
    have hp := hbelow i (by omega)
    rw [List.getElem?_eq_getElem (by omega)] at hp
    simpa [List.getElem_take] using hp
  · obtain ⟨i, hi, rfl⟩ := List.getElem_of_mem hu
    rw [List.length_drop] at hi
    have hp := habove _ (Nat.le_add_right _ i) (by omega)
    rw [List.getElem?_eq_getElem (by omega)] at hp
    simpa [List.getElem_drop] using hp

/-- Some address lies in the new range and in an old one. -/
def Overlaps (s : VmaSnapshot) (v : Vma) : Prop :=
  ∃ u ∈ s.ranges, u.start < v.stop ∧ v.start < u.stop

/-- The check of `minimm_vma_snapshot_insert` on the two neighbours sees every overlap. -/
theorem insertCheck_iff {xs ys : List Vma} {v : Vma} (h : Ordered (xs ++ ys)) (hv : v.Valid)
    (hxs : ∀ u ∈ xs, u.start < v.start) (hys : ∀ u ∈ ys, v.start ≤ u.start) :
    (xs.getLast?.any (fun u ↦ decide (u.stop > v.start)) ||
      ys.head?.any fun u ↦ decide (u.start < v.stop)) = true ↔
    ∃ u ∈ xs ++ ys, u.start < v.stop ∧ v.start < u.stop := by
  have hlt := hv.lt
  obtain ⟨hx, hy, hcross⟩ := Ordered.append_iff.1 h
  rw [Bool.or_eq_true]
  constructor
  · rintro (hlast | hhead)
    · cases hu : xs.getLast? with
      | none => simp [hu] at hlast
      | some u =>
        have hmem := List.mem_of_getLast? hu
        have hbelow := hxs u hmem
        rw [hu, Option.any_some, decide_eq_true_eq] at hlast
        exact ⟨u, by simp [hmem], by omega, hlast⟩
    · cases hu : ys.head? with
      | none => simp [hu] at hhead
      | some u =>
        have hmem := List.mem_of_head? hu
        have habove := hys u hmem
        have hlt' := (hy.valid u hmem).lt
        rw [hu, Option.any_some, decide_eq_true_eq] at hhead
        exact ⟨u, by simp [hmem], hhead, by omega⟩
  · rintro ⟨u, hu, hstart, hstop⟩
    rcases List.mem_append.1 hu with hu | hu
    · left
      have hne : xs ≠ [] := List.ne_nil_of_mem hu
      have hle := stop_le_lastStop hx hu
      rw [lastStop, List.getLast?_eq_some_getLast hne] at hle
      rw [List.getLast?_eq_some_getLast hne]
      simp only [Option.map_some, Option.getD_some] at hle
      simp only [Option.any_some, decide_eq_true_eq]
      omega
    · right
      obtain ⟨w, ws, rfl⟩ := List.exists_cons_of_ne_nil (List.ne_nil_of_mem hu)
      simp only [List.head?_cons, Option.any_some, decide_eq_true_eq]
      rcases List.mem_cons.1 hu with rfl | hu
      · exact hstart
      · have h1 := (Ordered.cons_iff.1 hy).2.2 u hu
        have h2 := (hy.valid w (by simp)).lt
        omega

theorem insertCheck_eq {ranges : List Vma} {k : ℕ} (hk : k ≤ ranges.length) (v : Vma) :
    ((decide (k > 0) && (ranges[k - 1]?).any fun u ↦ decide (u.stop > v.start)) ||
      (ranges[k]?).any fun u ↦ decide (u.start < v.stop)) =
    ((ranges.take k).getLast?.any (fun u ↦ decide (u.stop > v.start)) ||
      (ranges.drop k).head?.any fun u ↦ decide (u.start < v.stop)) := by
  rw [List.head?_drop]
  congr 1
  cases k with
  | zero => simp
  | succ k =>
    rw [List.getLast?_take]
    have : ranges[k]? = some ranges[k] := List.getElem?_eq_getElem hk
    simp [this]

theorem ordered_insert {xs ys : List Vma} {v : Vma} (h : Ordered (xs ++ ys)) (hv : v.Valid)
    (hxs : ∀ u ∈ xs, u.stop ≤ v.start) (hys : ∀ u ∈ ys, v.stop ≤ u.start) :
    Ordered (xs ++ v :: ys) ∧ ∀ a, viewAt (xs ++ v :: ys) a =
      if v.contains a then some (v.view a) else viewAt (xs ++ ys) a := by
  obtain ⟨hx, hy, hcross⟩ := Ordered.append_iff.1 h
  have hord : Ordered (xs ++ v :: ys) := by
    refine Ordered.append_iff.2 ⟨hx, Ordered.cons_iff.2 ⟨hv, hy, hys⟩, fun u hu w hw ↦ ?_⟩
    rcases List.mem_cons.1 hw with rfl | hw
    · exact hxs u hu
    · exact hcross u hu w hw
  refine ⟨hord, fun a ↦ ?_⟩
  split_ifs with hva
  · exact hord.viewAt_iff.2 ⟨v, by simp, hva, rfl⟩
  · simp [viewAt, List.find?_append, hva]

theorem insert_invalid (s : VmaSnapshot) {v : Vma} (hv : v.isValid = false) :
    s.insert v = pure (.invalidArgument, none) := by
  rw [insert, if_pos hv]

theorem insert_overlap {s : VmaSnapshot} (h : Ordered s.ranges) {v : Vma} (hv : v.isValid = true)
    (hover : s.Overlaps v) : s.insert v = pure (.addressInUse, none) := by
  obtain ⟨k, hk, hpos, hbelow, habove⟩ := insertPosition_spec h v.start
  have hcheck := insertCheck_eq hk v
  rw [(insertCheck_iff (by rwa [List.take_append_drop]) (isValid_iff.1 hv) hbelow habove).2
    (by rwa [List.take_append_drop])] at hcheck
  rw [insert, if_neg (by simp [hv]), hpos]
  dsimp only
  rw [if_pos hcheck]

theorem insert_spec {s : VmaSnapshot} (h : Ordered s.ranges) {v : Vma} (hv : v.isValid = true)
    (hfree : ¬s.Overlaps v) :
    s.BuildsNext (s.insert v)
      fun a ↦ if v.contains a then some (v.view a) else viewAt s.ranges a := by
  obtain ⟨k, hk, hpos, hbelow, habove⟩ := insertPosition_spec h v.start
  have hval := isValid_iff.1 hv
  have hlt := hval.lt
  have hlen := h.length_le_pages
  have hcheck := insertCheck_eq hk v
  have hnot := mt (insertCheck_iff (by rwa [List.take_append_drop]) hval hbelow habove).1
    (by rwa [List.take_append_drop])
  rw [← hcheck] at hnot
  rw [insert, if_neg (by simp [hv]), hpos]
  dsimp only
  rw [if_neg hnot, if_neg (by
    have : userAddressLimit / pageSize < sizeMax := by decide
    omega)]
  obtain ⟨hord, hview⟩ := ordered_insert (v := v)
    (show Ordered (s.ranges.take k ++ s.ranges.drop k) by rwa [List.take_append_drop]) hval
    (fun u hu ↦ by
      by_contra hstop
      have := hbelow u hu
      exact hfree ⟨u, List.mem_of_mem_take hu, by omega, by omega⟩)
    (fun u hu ↦ by
      by_contra hstart
      have h1 := habove u hu
      have h2 := (h.valid u (List.mem_of_mem_drop hu)).lt
      exact hfree ⟨u, List.mem_of_mem_drop hu, by omega, by omega⟩)
  rw [List.take_append_drop] at hview
  have hcount : s.ranges.length + 1 =
      (s.ranges.take k ++ v :: s.ranges.drop k).length := by
    rw [List.length_append, List.length_cons, List.length_take, List.length_drop]
    omega
  exact ⟨_, by rw [hcount], hord, hview⟩

/-! ## Cutting ranges -/

/-- A piece of a range, with a protection of its own if it is given one. -/
def piece (v : Vma) (start stop : ℕ) (protection : Option Prot) : Vma :=
  { v with
    start := start
    stop := stop
    noteOffset := v.noteOffset + (start - v.start)
    prot := protection.getD v.prot }

theorem piece_valid {v : Vma} (hv : v.Valid) (protection : Option Prot) {start stop : ℕ}
    (hstart : v.start ≤ start) (hlt : start < stop) (hstop : stop ≤ v.stop)
    (hs : start % pageSize = 0) (he : stop % pageSize = 0)
    (hp : ∀ p, protection = some p → p.isValid = true ∧ p.within v.maxProt = true) :
    v.fragment start stop protection = some (piece v start stop protection) ∧
      (piece v start stop protection).Valid := by
  have hoff := hv.offset
  have hoa := hv.offsetAligned
  have hsa := hv.startAligned
  rw [fragment, if_neg (by omega)]
  refine ⟨rfl, hlt, hstop.trans hv.limit, hs, he, ?_, ?_, hv.maxProt, ?_, ?_⟩
  · simp only [piece, pageSize] at hs hoa hsa ⊢
    omega
  · cases protection with
    | none => exact hv.prot
    | some p => exact (hp p rfl).1
  · cases protection with
    | none => exact hv.within
    | some p => exact (hp p rfl).2
  · simp only [piece]
    omega

theorem piece_view (v : Vma) {start stop a : ℕ} (protection : Option Prot)
    (hstart : v.start ≤ start) (ha : start ≤ a) :
    (piece v start stop protection).view a =
      { v.view a with prot := protection.getD v.prot } := by
  simp only [view, piece, View.mk.injEq, true_and, and_true]
  omega

theorem viewAt_singleton (v : Vma) (a : ℕ) :
    viewAt [v] a = if v.start ≤ a ∧ a < v.stop then some (v.view a) else none := by
  rw [viewAt, List.find?_singleton]
  split_ifs with h1 h2 h2
  · rfl
  · exact absurd (contains_iff.1 h1) h2
  · exact absurd (contains_iff.2 h2) h1
  · rfl

theorem viewAt_piece {c : Prop} [Decidable c] {v : Vma} {start stop a : ℕ}
    {protection : Option Prot} (hstart : v.start ≤ start) :
    viewAt (if c then [piece v start stop protection] else []) a =
      if c ∧ start ≤ a ∧ a < stop then
        some { v.view a with prot := protection.getD v.prot } else none := by
  by_cases hc : c
  · rw [if_pos hc, viewAt_singleton]
    simp only [hc, true_and]
    by_cases ha : start ≤ a ∧ a < stop
    · rw [if_pos ha]
      exact (if_pos ha).trans (congrArg some (piece_view v protection hstart ha.1))
    · rw [if_neg ha]
      exact if_neg ha
  · rw [if_neg hc, if_neg fun h ↦ hc h.1]
    rfl

/-- What a cut makes of one range: pieces in order within it. -/
structure CutOk (cut : Vma → List (Option Vma)) (v : Vma) (pieces : List Vma) : Prop where
  eq : cut v = pieces.map some
  ordered : Ordered pieces
  start : ∀ u ∈ pieces, v.start ≤ u.start
  stop : ∀ u ∈ pieces, u.stop ≤ v.stop

theorem mapM_id_map_some (pieces : List Vma) : (pieces.map some).mapM id = some pieces := by
  induction pieces with
  | nil => rfl
  | cons v rest ih => simp [List.mapM_cons, ih]

theorem optional_ordered {c : Prop} [Decidable c] {v : Vma} (hv : c → v.Valid) :
    Ordered (if c then [v] else []) := by
  split_ifs with hc
  · exact ⟨List.pairwise_singleton _ _, by simpa using hv hc⟩
  · exact Ordered.nil

theorem mem_optional {c : Prop} [Decidable c] {u v : Vma} :
    u ∈ (if c then [v] else []) ↔ c ∧ u = v := by
  split_ifs with hc <;> simp [hc]

theorem optional_map {c : Prop} [Decidable c] {x : Option Vma} {v : Vma} (h : c → x = some v) :
    (if c then [x] else []) = (if c then [v] else []).map some := by
  split_ifs with hc
  · rw [h hc]
    rfl
  · rfl

theorem joinFragments_spec {cut : Vma → List (Option Vma)} {f : Vma → List Vma} {ranges : List Vma}
    (h : Ordered ranges) (hcut : ∀ v ∈ ranges, CutOk cut v (f v)) :
    joinFragments cut ranges = some (ranges.flatMap f) ∧ Ordered (ranges.flatMap f) ∧
      (ranges.map fun v ↦ (cut v).length).sum = (ranges.flatMap f).length := by
  induction ranges with
  | nil => exact ⟨rfl, Ordered.nil, rfl⟩
  | cons v rest ih =>
    obtain ⟨hv, hrest, hcross⟩ := Ordered.cons_iff.1 h
    obtain ⟨hc, hcs⟩ := List.forall_mem_cons.1 hcut
    obtain ⟨hjoin, hord, hsum⟩ := ih hrest hcs
    refine ⟨?_, ?_, ?_⟩
    · rw [joinFragments, hc.eq, mapM_id_map_some, hjoin]
      rfl
    · rw [List.flatMap_cons]
      refine Ordered.append_iff.2 ⟨hc.ordered, hord, fun u hu w hw ↦ ?_⟩
      obtain ⟨z, hz, hwz⟩ := List.mem_flatMap.1 hw
      exact ((hc.stop u hu).trans (hcross z hz)).trans ((hcs z hz).start w hwz)
    · rw [List.map_cons, List.sum_cons, hsum, hc.eq, List.length_map, List.flatMap_cons,
        List.length_append]

/-- A change that treats every range alike at an address treats the list so. -/
theorem viewAt_flatMap {f : Vma → List Vma} {ranges : List Vma} {a : ℕ} {g : View → Option View}
    (hg : ∀ x y, g x = none → g y = none)
    (hf : ∀ v ∈ ranges, viewAt (f v) a = (viewAt [v] a).bind g) :
    viewAt (ranges.flatMap f) a = (viewAt ranges a).bind g := by
  induction ranges with
  | nil => rfl
  | cons v rest ih =>
    obtain ⟨hv, hrest⟩ := List.forall_mem_cons.1 hf
    rw [List.flatMap_cons, viewAt_append, ih hrest, hv, show v :: rest = [v] ++ rest from rfl,
      viewAt_append]
    cases viewAt [v] a with
    | none => simp
    | some x =>
      cases hx : g x with
      | some y => simp [hx]
      | none =>
        cases viewAt rest a with
        | none => simp [hx]
        | some y => simp [hx, hg x y hx]

/-! ## Removal -/

def removePieces (start stop : ℕ) (v : Vma) : List Vma :=
  if apartFrom start stop v then [v]
  else
    (if v.start < start then [piece v v.start start none] else []) ++
      (if v.stop > stop then [piece v stop v.stop none] else [])

theorem apartFrom_iff {start stop : ℕ} {v : Vma} :
    apartFrom start stop v = true ↔ v.stop ≤ start ∨ stop ≤ v.start := by
  simp [apartFrom]

theorem removePieces_ok {start stop : ℕ} (hr : pageRangeIsValid start stop = true) {v : Vma}
    (hv : v.Valid) : CutOk (removeFrom start stop) v (removePieces start stop v) := by
  obtain ⟨hlt, -, hs, he⟩ := pageRangeIsValid_iff.1 hr
  have hvlt := hv.lt
  rw [removePieces]
  by_cases hapart : apartFrom start stop v = true
  · rw [if_pos hapart]
    exact ⟨by rw [removeFrom, if_pos hapart]; rfl, ⟨List.pairwise_singleton _ _, by simpa using hv⟩,
      by simp, by simp⟩
  · have hcut : removeFrom start stop v = _ := if_neg hapart
    rw [if_neg hapart]
    rw [apartFrom_iff, not_or] at hapart
    have hleft (h : v.start < start) := piece_valid hv none le_rfl h (by omega)
      hv.startAligned hs (by simp)
    have hright (h : v.stop > stop) := piece_valid hv none (by omega) h le_rfl he
      hv.stopAligned (by simp)
    refine ⟨?_, Ordered.append_iff.2 ⟨optional_ordered fun h ↦ (hleft h).2,
      optional_ordered fun h ↦ (hright h).2, fun u hu w hw ↦ ?_⟩, fun u hu ↦ ?_, fun u hu ↦ ?_⟩
    · rw [hcut, List.map_append, optional_map fun h ↦ (hleft h).1,
        optional_map fun h ↦ (hright h).1]
    · obtain ⟨-, rfl⟩ := mem_optional.1 hu
      obtain ⟨-, rfl⟩ := mem_optional.1 hw
      exact hlt.le
    all_goals
      rcases List.mem_append.1 hu with hu | hu <;> obtain ⟨-, rfl⟩ := mem_optional.1 hu <;>
        simp only [piece] <;> omega

theorem removePieces_view (start stop : ℕ) (v : Vma) (a : ℕ) :
    viewAt (removePieces start stop v) a =
      (viewAt [v] a).bind fun x ↦ if start ≤ a ∧ a < stop then none else some x := by
  rw [removePieces]
  by_cases hapart : apartFrom start stop v = true
  · rw [if_pos hapart]
    rw [apartFrom_iff] at hapart
    by_cases hin : start ≤ a ∧ a < stop
    · rw [viewAt_singleton, if_neg (by omega)]
      rfl
    · simp only [if_neg hin, Option.bind_fun_some]
  · rw [if_neg hapart]
    rw [apartFrom_iff, not_or] at hapart
    rw [viewAt_append, viewAt_piece le_rfl, viewAt_piece (by omega), viewAt_singleton]
    have hleft : (v.start < start ∧ v.start ≤ a ∧ a < start) ↔
        (v.start ≤ a ∧ a < v.stop) ∧ a < start := by omega
    have hright : (v.stop > stop ∧ stop ≤ a ∧ a < v.stop) ↔
        (v.start ≤ a ∧ a < v.stop) ∧ stop ≤ a := by omega
    simp only [hleft, hright]
    by_cases hva : v.start ≤ a ∧ a < v.stop
    · rcases lt_or_ge a start with h1 | h1 <;> rcases lt_or_ge a stop with h2 | h2 <;>
        simp [hva, h1, h2, not_lt.2, not_le.2, view]
    · simp [hva]

theorem remove_invalid (s : VmaSnapshot) {start stop : ℕ}
    (hr : pageRangeIsValid start stop = false) :
    s.remove start stop = pure (.invalidArgument, none) := by
  rw [remove, if_pos hr]

theorem remove_spec {s : VmaSnapshot} (h : Ordered s.ranges) {start stop : ℕ}
    (hr : pageRangeIsValid start stop = true) :
    s.BuildsNext (s.remove start stop)
      fun a ↦ if start ≤ a ∧ a < stop then none else viewAt s.ranges a := by
  obtain ⟨hjoin, hord, hcount⟩ := joinFragments_spec h
    fun v hv ↦ removePieces_ok hr (h.valid v hv)
  have hlen := hord.length_le_pages
  rw [remove, if_neg (by simp [hr])]
  dsimp only
  rw [if_neg (by
    have : userAddressLimit / pageSize < sizeMax := by decide
    omega), hjoin, hcount]
  refine ⟨_, rfl, hord, fun a ↦ ?_⟩
  rw [viewAt_flatMap ?_ fun v _ ↦ removePieces_view start stop v a]
  · by_cases hin : start ≤ a ∧ a < stop
    · simp only [if_pos hin, Option.bind_fun_none]
    · simp only [if_neg hin, Option.bind_fun_some]
  · intro x y
    split_ifs <;> simp

/-! ## Protection -/

def protectPieces (start stop : ℕ) (protection : Prot) (v : Vma) : List Vma :=
  if apartFrom start stop v then [v]
  else
    (if v.start < max v.start start then [piece v v.start (max v.start start) none] else []) ++
      [piece v (max v.start start) (min v.stop stop) (some protection)] ++
      (if v.stop > min v.stop stop then [piece v (min v.stop stop) v.stop none] else [])

/-- Every page of `[covered, stop)` is mapped, and its mapping allows the protection. -/
structure Allows (ranges : List Vma) (covered stop : ℕ) (protection : Prot) : Prop where
  mapped : ∀ a, covered ≤ a → a < stop → ∃ v ∈ ranges, v.contains a = true
  within : ∀ v ∈ ranges, covered < v.stop → v.start < stop → protection.within v.maxProt = true

theorem protectCheck_iff {ranges : List Vma} (h : Ordered ranges) {covered stop : ℕ}
    {protection : Prot} (hle : covered ≤ stop)
    (hend : covered = stop → ∀ v ∈ ranges, stop ≤ v.start) :
    protectCheck stop protection ranges covered = (.ok, stop) ↔
      Allows ranges covered stop protection := by
  induction ranges generalizing covered with
  | nil =>
    rw [protectCheck]
    constructor
    · intro heq
      cases heq
      exact ⟨fun a h1 h2 ↦ by omega, by simp⟩
    · intro hall
      rcases Nat.lt_or_eq_of_le hle with hlt | rfl
      · obtain ⟨v, hv, -⟩ := hall.mapped covered le_rfl hlt
        cases hv
      · rfl
  | cons v rest ih =>
    obtain ⟨hv, hrest, hcross⟩ := Ordered.cons_iff.1 h
    have hvlt := hv.lt
    rw [protectCheck]
    split_ifs with hlt hbelow hhole hdeny
    · rw [ih hrest hle (by omega)]
      constructor
      · intro hall
        refine ⟨fun a h1 h2 ↦ ?_, List.forall_mem_cons.2 ⟨by omega, hall.within⟩⟩
        obtain ⟨u, hu, hua⟩ := hall.mapped a h1 h2
        exact ⟨u, by simp [hu], hua⟩
      · intro hall
        refine ⟨fun a h1 h2 ↦ ?_, (List.forall_mem_cons.1 hall.within).2⟩
        obtain ⟨u, hu, hua⟩ := hall.mapped a h1 h2
        rcases List.mem_cons.1 hu with rfl | hu
        · rw [contains_iff] at hua
          omega
        · exact ⟨u, hu, hua⟩
    · refine ⟨fun heq ↦ (by cases heq), fun hall ↦ ?_⟩
      obtain ⟨u, hu, hua⟩ := hall.mapped covered le_rfl hlt
      rw [contains_iff] at hua
      rcases List.mem_cons.1 hu with rfl | hu
      · omega
      · have := hcross u hu
        omega
    · refine ⟨fun heq ↦ (by cases heq), fun hall ↦ ?_⟩
      rw [(List.forall_mem_cons.1 hall.within).1 (by omega) (by omega)] at hdeny
      cases hdeny
    · rw [ih hrest (min_le_right _ _) fun hmin w hw ↦ by
        have := hcross w hw
        omega]
      constructor
      · intro hall
        refine ⟨fun a h1 h2 ↦ ?_, List.forall_mem_cons.2 ⟨fun _ _ ↦ by simpa using hdeny,
          fun w hw _ hstart ↦ hall.within w hw ?_ hstart⟩⟩
        · by_cases ha : a < v.stop
          · exact ⟨v, by simp, contains_iff.2 ⟨by omega, ha⟩⟩
          · obtain ⟨u, hu, hua⟩ := hall.mapped a (by omega) h2
            exact ⟨u, by simp [hu], hua⟩
        · have h1 := hcross w hw
          have h2 := (hrest.valid w hw).lt
          omega
      · intro hall
        refine ⟨fun a h1 h2 ↦ ?_, fun w hw hstop hstart ↦
          (List.forall_mem_cons.1 hall.within).2 w hw ?_ hstart⟩
        · obtain ⟨u, hu, hua⟩ := hall.mapped a (by omega) h2
          rcases List.mem_cons.1 hu with rfl | hu
          · rw [contains_iff] at hua
            omega
          · exact ⟨u, hu, hua⟩
        · have h1 := hcross w hw
          have h2 := (hrest.valid w hw).lt
          omega
    · obtain rfl : covered = stop := by omega
      refine ⟨fun _ ↦ ⟨fun a h1 h2 ↦ by omega, fun w hw _ hstart ↦ ?_⟩, fun _ ↦ rfl⟩
      have := hend rfl w hw
      omega

theorem protectCheck_status (stop : ℕ) (protection : Prot) (ranges : List Vma) (covered : ℕ) :
    (protectCheck stop protection ranges covered).1 = .ok ∨
      (protectCheck stop protection ranges covered).1 = .notFound ∨
      (protectCheck stop protection ranges covered).1 = .permission := by
  induction ranges generalizing covered with
  | nil => exact Or.inl rfl
  | cons v rest ih =>
    rw [protectCheck]
    split_ifs
    · exact ih covered
    · exact Or.inr (Or.inl rfl)
    · exact Or.inr (Or.inr rfl)
    · exact ih _
    · exact Or.inl rfl

theorem protectPieces_ok {start stop : ℕ} (hr : pageRangeIsValid start stop = true)
    {protection : Prot} (hp : protection.isValid = true) {v : Vma} (hv : v.Valid)
    (hw : apartFrom start stop v = false → protection.within v.maxProt = true) :
    CutOk (protectIn start stop protection) v (protectPieces start stop protection v) := by
  obtain ⟨hlt, -, hs, he⟩ := pageRangeIsValid_iff.1 hr
  have hvlt := hv.lt
  rw [protectPieces]
  by_cases hapart : apartFrom start stop v = true
  · rw [if_pos hapart]
    exact ⟨by rw [protectIn, if_pos hapart]; rfl,
      ⟨List.pairwise_singleton _ _, by simpa using hv⟩, by simp, by simp⟩
  · have hcut : protectIn start stop protection v = _ := if_neg hapart
    have hwithin := hw (by simpa using hapart)
    rw [if_neg hapart]
    rw [apartFrom_iff, not_or] at hapart
    have hms : max v.start start % pageSize = 0 := by
      rcases max_choice v.start start with h | h <;> rw [h]
      · exact hv.startAligned
      · exact hs
    have hme : min v.stop stop % pageSize = 0 := by
      rcases min_choice v.stop stop with h | h <;> rw [h]
      · exact hv.stopAligned
      · exact he
    have hleft (h : v.start < max v.start start) := piece_valid hv none le_rfl h
      (by omega) hv.startAligned hms (by simp)
    have hmiddle := piece_valid hv (some protection) (le_max_left v.start start)
      (show max v.start start < min v.stop stop by omega) (by omega) hms hme
      (by rintro p ⟨⟩; exact ⟨hp, hwithin⟩)
    have hright (h : v.stop > min v.stop stop) := piece_valid hv none (by omega) h
      le_rfl hme hv.stopAligned (by simp)
    refine ⟨?_, Ordered.append_iff.2 ⟨Ordered.append_iff.2 ⟨optional_ordered fun h ↦ (hleft h).2,
      ⟨List.pairwise_singleton _ _, by simpa using hmiddle.2⟩, ?_⟩,
      optional_ordered fun h ↦ (hright h).2, ?_⟩, ?_, ?_⟩
    · rw [hcut, List.map_append, List.map_append, ← optional_map fun h ↦ (hleft h).1,
        ← optional_map fun h ↦ (hright h).1, List.map_singleton, ← hmiddle.1]
    · intro u hu w hw
      obtain ⟨-, rfl⟩ := mem_optional.1 hu
      rw [List.mem_singleton.1 hw]
      exact le_rfl
    · intro u hu w hw
      obtain ⟨-, rfl⟩ := mem_optional.1 hw
      rcases List.mem_append.1 hu with hu | hu
      · obtain ⟨-, rfl⟩ := mem_optional.1 hu
        simp only [piece]
        omega
      · rw [List.mem_singleton.1 hu]
        exact le_rfl
    all_goals
      intro u hu
      rcases List.mem_append.1 hu with hu | hu
      · rcases List.mem_append.1 hu with hu | hu
        · obtain ⟨-, rfl⟩ := mem_optional.1 hu
          simp only [piece]
          omega
        · rw [List.mem_singleton.1 hu]
          simp only [piece]
          omega
      · obtain ⟨-, rfl⟩ := mem_optional.1 hu
        simp only [piece]
        omega

theorem protectPieces_view (start stop : ℕ) (protection : Prot) {v : Vma} (hv : v.Valid) (a : ℕ) :
    viewAt (protectPieces start stop protection v) a = (viewAt [v] a).bind fun x ↦
      some (if start ≤ a ∧ a < stop then { x with prot := protection } else x) := by
  have hvlt := hv.lt
  rw [protectPieces]
  by_cases hapart : apartFrom start stop v = true
  · rw [if_pos hapart]
    rw [apartFrom_iff] at hapart
    rw [viewAt_singleton]
    by_cases hva : v.start ≤ a ∧ a < v.stop
    · rw [if_pos hva, Option.bind_some, if_neg (by omega)]
    · rw [if_neg hva]
      rfl
  · rw [if_neg hapart]
    rw [apartFrom_iff, not_or] at hapart
    have hmiddle : viewAt (if True then
        [piece v (max v.start start) (min v.stop stop) (some protection)] else []) a = _ :=
      viewAt_piece (le_max_left _ _)
    simp only [if_true, true_and] at hmiddle
    rw [viewAt_append, viewAt_append, viewAt_piece le_rfl, viewAt_piece (by omega), hmiddle,
      viewAt_singleton]
    have hl : (v.start < max v.start start ∧ v.start ≤ a ∧ a < max v.start start) ↔
        (v.start ≤ a ∧ a < v.stop) ∧ a < start := by omega
    have hm : (max v.start start ≤ a ∧ a < min v.stop stop) ↔
        (v.start ≤ a ∧ a < v.stop) ∧ start ≤ a ∧ a < stop := by omega
    have hr : (v.stop > min v.stop stop ∧ min v.stop stop ≤ a ∧ a < v.stop) ↔
        (v.start ≤ a ∧ a < v.stop) ∧ stop ≤ a := by omega
    simp only [hl, hm, hr]
    by_cases hva : v.start ≤ a ∧ a < v.stop
    · rcases lt_or_ge a start with h1 | h1 <;> rcases lt_or_ge a stop with h2 | h2 <;>
        simp [hva, h1, h2, not_lt.2, not_le.2, view]
    · simp [hva]

theorem protect_invalid (s : VmaSnapshot) {start stop : ℕ} {protection : Prot}
    (hr : pageRangeIsValid start stop = false ∨ protection.isValid = false) :
    s.protect start stop protection = pure (.invalidArgument, none) := by
  rw [protect, if_pos hr]

theorem protect_spec {s : VmaSnapshot} (h : Ordered s.ranges) {start stop : ℕ} {protection : Prot}
    (hr : pageRangeIsValid start stop = true) (hp : protection.isValid = true)
    (hallow : Allows s.ranges start stop protection) :
    s.BuildsNext (s.protect start stop protection)
      fun a ↦ (viewAt s.ranges a).map fun x ↦
        if start ≤ a ∧ a < stop then { x with prot := protection } else x := by
  have hlt := (pageRangeIsValid_iff.1 hr).1
  obtain ⟨hjoin, hord, hcount⟩ := joinFragments_spec h fun v hv ↦ protectPieces_ok hr hp
    (h.valid v hv) fun hna ↦ hallow.within v hv (by
      by_contra hge
      rw [apartFrom_iff.2 (by omega)] at hna
      cases hna) (by
      by_contra hge
      rw [apartFrom_iff.2 (by omega)] at hna
      cases hna)
  have hlen := hord.length_le_pages
  have hcheck := (protectCheck_iff h hlt.le (by omega)).2 hallow
  rw [protect, if_neg (by simp [hr, hp])]
  simp only [hcheck, ne_eq, not_true_eq_false, if_false]
  rw [if_neg (by
    have : userAddressLimit / pageSize < sizeMax := by decide
    omega), hjoin, hcount]
  refine ⟨_, rfl, hord, fun a ↦ ?_⟩
  dsimp only
  rw [viewAt_flatMap (by simp) fun v hv ↦ protectPieces_view start stop protection (h.valid v hv) a,
    Option.map_eq_bind]
  rfl

theorem protect_refused {s : VmaSnapshot} (h : Ordered s.ranges) {start stop : ℕ}
    {protection : Prot} (hr : pageRangeIsValid start stop = true)
    (hp : protection.isValid = true) (hdeny : ¬Allows s.ranges start stop protection) :
    s.protect start stop protection = pure (.notFound, none) ∨
      s.protect start stop protection = pure (.permission, none) := by
  have hlt := (pageRangeIsValid_iff.1 hr).1
  have hcheck := mt (protectCheck_iff h hlt.le (by omega)).1 hdeny
  have hstatus := protectCheck_status stop protection s.ranges start
  rw [protect, if_neg (by simp [hr, hp])]
  generalize protectCheck stop protection s.ranges start = check at hcheck hstatus
  obtain ⟨status, covered⟩ := check
  dsimp only at hstatus ⊢
  rcases hstatus with rfl | rfl | rfl
  · rw [if_neg (by simp), if_pos fun heq ↦ hcheck (by rw [heq])]
    exact Or.inl rfl
  · exact Or.inl (if_pos (by decide))
  · exact Or.inr (if_pos (by decide))

end VmaSnapshot

end MiniMM
