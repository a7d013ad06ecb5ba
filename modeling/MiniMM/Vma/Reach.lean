import MiniMM.Vma.Snapshot

/-!
# Snapshots reachable by edits

A snapshot read as a map from pages, over all sequences of edits.
-/

namespace MiniMM

open Vma

namespace VmaSnapshot

/-- The operations that build a snapshot from another. -/
inductive Edit where
  | insert (v : Vma)
  | remove (start stop : ℕ)
  | protect (start stop : ℕ) (protection : Prot)
  | clone

def Edit.code (s : VmaSnapshot) : Edit → Code (Status × Option VmaSnapshot)
  | .insert v => s.insert v
  | .remove start stop => s.remove start stop
  | .protect start stop protection => s.protect start stop protection
  | .clone => s.clone

/-- The snapshots that `minimm_vma_snapshot_create` and any sequence of edits return. -/
inductive Reachable : VmaSnapshot → Prop where
  | create {σ σ' : Sys} {s : VmaSnapshot} : create.run σ = .done (.ok, some s) σ' → Reachable s
  | edit {σ σ' : Sys} {s t : VmaSnapshot} {e : Edit} : Reachable s →
      (e.code s).run σ = .done (.ok, some t) σ' → Reachable t

/-- The mapping of a page. -/
def page (s : VmaSnapshot) (p : ℕ) : Option View := viewAt s.ranges (p * pageSize)

/-- The page lies in `[start, stop)`. -/
def PageIn (start stop p : ℕ) : Prop := start ≤ p * pageSize ∧ p * pageSize < stop

instance (start stop p : ℕ) : Decidable (PageIn start stop p) :=
  inferInstanceAs (Decidable (_ ∧ _))

/-- A page of the new range is mapped already. -/
def Meets (s : VmaSnapshot) (v : Vma) : Prop := ∃ p, PageIn v.start v.stop p ∧ s.page p ≠ none

/-- Every page of the range is mapped by a mapping that allows the protection. -/
def AllowsPages (s : VmaSnapshot) (start stop : ℕ) (protection : Prot) : Prop :=
  ∀ p, PageIn start stop p → ∃ x, s.page p = some x ∧ protection.within x.maxProt = true

/-! ## Pages and addresses -/

theorem page_of_aligned {a : ℕ} (h : a % pageSize = 0) : a / pageSize * pageSize = a :=
  Nat.div_mul_cancel (Nat.dvd_of_mod_eq_zero h)

theorem overlaps_iff {s : VmaSnapshot} (h : Ordered s.ranges) {v : Vma} (hv : v.Valid) :
    s.Overlaps v ↔ s.Meets v := by
  constructor
  · rintro ⟨u, hu, hstart, hstop⟩
    have hu' := h.valid u hu
    have h1 := hu'.lt
    have h2 := hv.lt
    -- the higher of the two starts lies in both
    have haligned : max u.start v.start % pageSize = 0 := by
      rcases max_choice u.start v.start with heq | heq <;> rw [heq]
      · exact hu'.startAligned
      · exact hv.startAligned
    refine ⟨max u.start v.start / pageSize, ?_, ?_⟩
    · rw [PageIn, page_of_aligned haligned]
      omega
    · rw [page, page_of_aligned haligned]
      intro hnone
      have := Ordered.viewAt_none_iff.1 hnone u hu
      rw [contains_iff.2 (by omega)] at this
      cases this
  · rintro ⟨p, ⟨h1, h2⟩, hmapped⟩
    obtain ⟨x, hx⟩ := Option.ne_none_iff_exists'.1 hmapped
    obtain ⟨u, hu, hc, -⟩ := h.viewAt_iff.1 hx
    rw [contains_iff] at hc
    exact ⟨u, hu, by omega, by omega⟩

theorem allows_iff {s : VmaSnapshot} (h : Ordered s.ranges) {start stop : ℕ}
    (hr : pageRangeIsValid start stop = true) {protection : Prot} :
    Allows s.ranges start stop protection ↔ s.AllowsPages start stop protection := by
  obtain ⟨hlt, -, hs, he⟩ := pageRangeIsValid_iff.1 hr
  constructor
  · rintro ⟨hmapped, hwithin⟩ p ⟨h1, h2⟩
    obtain ⟨v, hv, hc⟩ := hmapped _ h1 h2
    refine ⟨v.view (p * pageSize), h.viewAt_iff.2 ⟨v, hv, hc, rfl⟩, ?_⟩
    rw [contains_iff] at hc
    exact hwithin v hv (by omega) (by omega)
  · intro hall
    refine ⟨fun a h1 h2 ↦ ?_, fun v hv h1 h2 ↦ ?_⟩
    · have hpage : PageIn start stop (a / pageSize) := by
        simp only [PageIn, pageSize] at hs he ⊢
        omega
      obtain ⟨x, hx, -⟩ := hall _ hpage
      obtain ⟨v, hv, hc, -⟩ := h.viewAt_iff.1 hx
      refine ⟨v, hv, ?_⟩
      have h3 := (h.valid v hv).stopAligned
      rw [contains_iff] at hc ⊢
      simp only [pageSize] at hc h3
      omega
    · have hv' := h.valid v hv
      have hvlt := hv'.lt
      have haligned : max v.start start % pageSize = 0 := by
        rcases max_choice v.start start with heq | heq <;> rw [heq]
        · exact hv'.startAligned
        · exact hs
      obtain ⟨x, hx, hwithin⟩ := hall (max v.start start / pageSize) (by
        rw [PageIn, page_of_aligned haligned]
        omega)
      rw [page, page_of_aligned haligned] at hx
      obtain ⟨u, hu, hc, rfl⟩ := h.viewAt_iff.1 hx
      rwa [h.eq_of_contains hu hv hc (contains_iff.2 (by omega))] at hwithin

/-! ## Good order is kept -/

variable {may : Bool → Prop}

theorem insert_outcome {s : VmaSnapshot} (h : s.Good) (v : Vma) :
    (s.insert v).Mallocs may fun r ↦
      (v.isValid = false ∧ r = (.invalidArgument, none)) ∨
      (v.isValid = true ∧ s.Meets v ∧ r = (.addressInUse, none)) ∨
      (v.isValid = true ∧ ¬s.Meets v ∧ Outcome may s (fun a ↦
        if v.contains a then some (v.view a) else viewAt s.ranges a) r) := by
  cases hv : v.isValid with
  | false =>
    rw [insert_invalid s hv]
    exact Or.inl ⟨rfl, rfl⟩
  | true =>
    have hiff := overlaps_iff h.ordered (isValid_iff.1 hv)
    by_cases hover : s.Overlaps v
    · rw [insert_overlap h.ordered hv hover]
      exact Or.inr (Or.inl ⟨rfl, hiff.1 hover, rfl⟩)
    · exact (insert_spec h.ordered hv hover).outcome.mono fun r hr ↦
        Or.inr (Or.inr ⟨rfl, mt hiff.2 hover, hr⟩)

theorem remove_outcome {s : VmaSnapshot} (h : s.Good) (start stop : ℕ) :
    (s.remove start stop).Mallocs may fun r ↦
      (pageRangeIsValid start stop = false ∧ r = (.invalidArgument, none)) ∨
      (pageRangeIsValid start stop = true ∧ Outcome may s (fun a ↦
        if start ≤ a ∧ a < stop then none else viewAt s.ranges a) r) := by
  cases hr : pageRangeIsValid start stop with
  | false =>
    rw [remove_invalid s hr]
    exact Or.inl ⟨rfl, rfl⟩
  | true => exact (remove_spec h.ordered hr).outcome.mono fun r hr ↦ Or.inr ⟨rfl, hr⟩

theorem protect_outcome {s : VmaSnapshot} (h : s.Good) (start stop : ℕ) (protection : Prot) :
    (s.protect start stop protection).Mallocs may fun r ↦
      ((pageRangeIsValid start stop && protection.isValid) = false ∧
        r = (.invalidArgument, none)) ∨
      ((pageRangeIsValid start stop && protection.isValid) = true ∧
        ¬s.AllowsPages start stop protection ∧
        (r = (.notFound, none) ∨ r = (.permission, none))) ∨
      ((pageRangeIsValid start stop && protection.isValid) = true ∧
        s.AllowsPages start stop protection ∧ Outcome may s (fun a ↦ (viewAt s.ranges a).map fun x ↦
          if start ≤ a ∧ a < stop then { x with prot := protection } else x) r) := by
  cases hc : pageRangeIsValid start stop && protection.isValid with
  | false =>
    rw [protect_invalid s (by rwa [Bool.and_eq_false_iff] at hc)]
    exact Or.inl ⟨rfl, rfl⟩
  | true =>
    obtain ⟨hr, hp⟩ := Bool.and_eq_true_iff.1 hc
    have hiff : Allows s.ranges start stop protection ↔ _ := allows_iff h.ordered hr
    by_cases hallow : Allows s.ranges start stop protection
    · exact (protect_spec h.ordered hr hp hallow).outcome.mono fun r hr ↦
        Or.inr (Or.inr ⟨rfl, hiff.1 hallow, hr⟩)
    · rcases protect_refused h.ordered hr hp hallow with heq | heq <;> rw [heq]
      · exact Or.inr (Or.inl ⟨rfl, mt hiff.2 hallow, Or.inl rfl⟩)
      · exact Or.inr (Or.inl ⟨rfl, mt hiff.2 hallow, Or.inr rfl⟩)

theorem Outcome.good {s t : VmaSnapshot} {view : ℕ → Option View} {status : Status}
    (h : Outcome may s view (status, some t)) : t.Good := by
  cases h with
  | ok hgood => exact hgood

theorem Edit.good {s t : VmaSnapshot} (h : s.Good) {e : Edit} {σ σ' : Sys}
    (hrun : (e.code s).run σ = .done (.ok, some t) σ') : t.Good := by
  cases e with
  | insert v =>
    rcases (insert_outcome h v).result hrun with ⟨-, heq⟩ | ⟨-, -, heq⟩ | ⟨-, -, hout⟩
    · cases heq
    · cases heq
    · exact hout.good
  | remove start stop =>
    rcases (remove_outcome h start stop).result hrun with ⟨-, heq⟩ | ⟨-, hout⟩
    · cases heq
    · exact hout.good
  | protect start stop protection =>
    rcases (protect_outcome h start stop protection).result hrun with
      ⟨-, heq⟩ | ⟨-, -, heq | heq⟩ | ⟨-, -, hout⟩
    · cases heq
    · cases heq
    · cases heq
    · exact hout.good
  | clone =>
    rcases Code.Mallocs.result (clone_spec h) hrun with ⟨heq, -⟩ | ⟨u, heq, hgood, -⟩
    · cases heq
    · cases heq
      exact hgood

theorem mallocs_done {α : Type} {p : Code α} {Q : α → Prop}
    (h : p.Mallocs (fun _ ↦ True) Q) (σ : Sys) : ∃ a σ', p.run σ = .done a σ' := by
  induction p generalizing σ with
  | pure a => exact ⟨a, σ, rfl⟩
  | op o k ih =>
    obtain ⟨ho, hk⟩ := h
    cases o with
    | malloc => exact ih _ (hk _ trivial) _
    | _ => cases ho

theorem Edit.done {s : VmaSnapshot} (h : s.Good) (e : Edit) (σ : Sys) :
    ∃ r σ', (e.code s).run σ = .done r σ' := by
  cases e with
  | insert v => exact mallocs_done (insert_outcome h v) σ
  | remove start stop => exact mallocs_done (remove_outcome h start stop) σ
  | protect start stop protection => exact mallocs_done (protect_outcome h start stop protection) σ
  | clone => exact mallocs_done (clone_spec h) σ

theorem Reachable.good {s : VmaSnapshot} (h : s.Reachable) : s.Good := by
  induction h with
  | create hrun =>
    rcases Code.Mallocs.result create_spec hrun with ⟨heq, -⟩ | ⟨u, heq, hgood, -⟩
    · cases heq
    · cases heq
      exact hgood
  | edit _ hrun ih => exact Edit.good ih hrun

/-! ## Snapshots as page maps -/

/-- What an operation returns that has nothing to object, in pages. It is out of memory only if the
host lets an allocation fail. -/
def Accepted (s : VmaSnapshot) (σ : Sys) (pages : ℕ → Option View)
    (r : Status × Option VmaSnapshot) : Prop :=
  (r = (.outOfMemory, none) ∧ ∃ n, σ.store.host.alloc n = false) ∨
    (s.generation = sizeMax ∧ r = (.noSpace, none)) ∨
    ∃ t : VmaSnapshot, r = (.ok, some t) ∧ ∀ p, t.page p = pages p

theorem Outcome.accepted {s : VmaSnapshot} {view pages : ℕ → Option View}
    {r : Status × Option VmaSnapshot} {σ : Sys}
    (h : Outcome (fun b ↦ ∃ n, σ.store.host.alloc n = b) s view r)
    (hpages : ∀ p, view (p * pageSize) = pages p) : s.Accepted σ pages r := by
  cases h with
  | outOfMemory hmay => exact Or.inl ⟨rfl, hmay⟩
  | noSpace hgen => exact Or.inr (Or.inl ⟨hgen, rfl⟩)
  | ok _ _ hview => exact Or.inr (Or.inr ⟨_, rfl, fun p ↦ (hview _).trans (hpages p)⟩)

/-- Every reachable snapshot is an array of valid, ascending, disjoint ranges, none of which can be
joined to the next, and the operations come to an end and change exactly the pages they name. -/
theorem reachable_pages {s : VmaSnapshot} (h : s.Reachable) :
    ((∀ v ∈ s.ranges, v.isValid = true) ∧
      (s.ranges.Pairwise fun u v ↦ u.start < v.start) ∧
      (s.ranges.Pairwise fun u v ↦ u.stop ≤ v.start) ∧
      s.ranges.IsChain fun u v ↦ u.canMerge v = false) ∧
    (∀ v r σ σ', (s.insert v).run σ = .done r σ' →
      (v.isValid = false ∧ r = (.invalidArgument, none)) ∨
      (v.isValid = true ∧ s.Meets v ∧ r = (.addressInUse, none)) ∨
      (v.isValid = true ∧ ¬s.Meets v ∧ s.Accepted σ
        (fun p ↦ if PageIn v.start v.stop p then some (v.view (p * pageSize)) else s.page p) r)) ∧
    (∀ start stop r σ σ', (s.remove start stop).run σ = .done r σ' →
      (pageRangeIsValid start stop = false ∧ r = (.invalidArgument, none)) ∨
      (pageRangeIsValid start stop = true ∧ s.Accepted σ
        (fun p ↦ if PageIn start stop p then none else s.page p) r)) ∧
    (∀ start stop protection r σ σ', (s.protect start stop protection).run σ = .done r σ' →
      ((pageRangeIsValid start stop && protection.isValid) = false ∧
        r = (.invalidArgument, none)) ∨
      ((pageRangeIsValid start stop && protection.isValid) = true ∧
        ¬s.AllowsPages start stop protection ∧
        (r = (.notFound, none) ∨ r = (.permission, none))) ∨
      ((pageRangeIsValid start stop && protection.isValid) = true ∧
        s.AllowsPages start stop protection ∧ s.Accepted σ (fun p ↦ (s.page p).map fun x ↦
          if PageIn start stop p then { x with prot := protection } else x) r)) ∧
    (∀ r σ σ', s.clone.run σ = .done r σ' →
      (r = (.outOfMemory, none) ∧ ∃ n, σ.store.host.alloc n = false) ∨
      ∃ t : VmaSnapshot, r = (.ok, some t) ∧ t.ranges = s.ranges ∧ t.generation =
        s.generation) ∧
    ∀ (e : Edit) σ, ∃ r σ', (e.code s).run σ = .done r σ' := by
  have hgood := h.good
  have hord := hgood.ordered
  refine ⟨⟨fun v hv ↦ isValid_iff.2 (hord.valid v hv), ?_, hord.sorted, hgood.coalesced⟩,
    ?_, ?_, ?_, ?_, Edit.done hgood⟩
  · refine hord.sorted.imp_of_mem fun hu _ hle ↦ ?_
    exact (hord.valid _ hu).lt.trans_le hle
  · intro v r σ σ' hrun
    refine ((insert_outcome hgood v).result hrun).imp_right (Or.imp_right ?_)
    rintro ⟨hv, hmeets, hout⟩
    refine ⟨hv, hmeets, hout.accepted fun p ↦ ?_⟩
    by_cases hp : PageIn v.start v.stop p
    · rw [if_pos hp, if_pos (contains_iff.2 hp)]
    · rw [if_neg hp, if_neg (mt contains_iff.1 hp)]
      rfl
  · intro start stop r σ σ' hrun
    refine ((remove_outcome hgood start stop).result hrun).imp_right ?_
    rintro ⟨hr, hout⟩
    exact ⟨hr, hout.accepted fun p ↦ rfl⟩
  · intro start stop protection r σ σ' hrun
    refine ((protect_outcome hgood start stop protection).result hrun).imp_right (Or.imp_right ?_)
    rintro ⟨hr, hallow, hout⟩
    exact ⟨hr, hallow, hout.accepted fun p ↦ rfl⟩
  · intro r σ σ' hrun
    refine (Code.Mallocs.result (clone_spec hgood) hrun).imp_right ?_
    rintro ⟨t, rfl, -, hgen, hranges⟩
    exact ⟨t, rfl, by rw [hranges, coalesceRanges_eq hgood.coalesced], hgen⟩

/-- A system with memory to spare. -/
def roomy : Sys := .created .reliable (fun _ ↦ ⟨fun _ ↦ 0, .ok⟩) 1 1

theorem empty_reachable : empty.Reachable := .create (σ := roomy) rfl

/-- A range of anonymous pages. -/
def anonymous (start stop : ℕ) : Vma :=
  ⟨start, stop, 1, start, { read := true }, { read := true }, false⟩

def onePage : Vma := anonymous 0x100000 0x101000

/-- The snapshot with one page alone. -/
def oneRange : VmaSnapshot := ⟨[onePage], some ⟨0, [onePage]⟩, 2⟩

theorem oneRange_reachable : oneRange.Reachable :=
  .edit (σ := roomy) (e := .insert onePage) empty_reachable rfl

def threePages : Vma := anonymous 0x100000 0x103000

def middlePage : Vma := anonymous 0x101000 0x102000

/-- Three pages in one range. -/
def whole : VmaSnapshot := ⟨[threePages], some ⟨0, [threePages]⟩, 2⟩

/-- The same without the page in the middle. -/
def hollow : VmaSnapshot where
  ranges := [onePage, anonymous 0x102000 0x103000]
  root := some ⟨0, [onePage, anonymous 0x102000 0x103000]⟩
  generation := 3

theorem whole_reachable : whole.Reachable :=
  .edit (σ := roomy) (e := .insert threePages) empty_reachable rfl

theorem hollow_reachable : hollow.Reachable :=
  .edit (σ := roomy) (e := .remove 0x101000 0x102000) whole_reachable rfl

theorem Accepted.ok {s t : VmaSnapshot} {σ : Sys} {pages : ℕ → Option View}
    (h : s.Accepted σ pages (.ok, some t)) (p : ℕ) : t.page p = pages p := by
  rcases h with ⟨heq, -⟩ | ⟨-, heq⟩ | ⟨_, heq, hpages⟩
  · cases heq
  · cases heq
  · cases heq
    exact hpages p

/-- The range is split in two when the page in the middle is removed, and joined again when it is
put back. -/
theorem reachable_pages_hollow :
    (∃ σ, (whole.remove 0x101000 0x102000).run roomy = .done (.ok, some hollow) σ) ∧
    (∀ p, hollow.page p = if PageIn 0x101000 0x102000 p then none else whole.page p) ∧
    ∃ t σ, (hollow.insert middlePage).run roomy = .done (.ok, some t) σ ∧ t.ranges = [threePages] ∧
      ∀ p, t.page p = if PageIn 0x101000 0x102000 p then some (middlePage.view (p * pageSize))
        else hollow.page p := by
  refine ⟨⟨_, rfl⟩, fun p ↦ ?_, ⟨[threePages], some ⟨0, [threePages]⟩, 4⟩, _, rfl, rfl,
    fun p ↦ ?_⟩
  · obtain ⟨-, -, hremove, -⟩ := reachable_pages whole_reachable
    rcases hremove 0x101000 0x102000 _ roomy _ rfl with ⟨-, heq⟩ | ⟨-, haccepted⟩
    · cases heq
    · exact haccepted.ok p
  · obtain ⟨-, hinsert, -⟩ := reachable_pages hollow_reachable
    rcases hinsert middlePage _ roomy _ rfl with ⟨-, heq⟩ | ⟨-, -, heq⟩ | ⟨-, -, haccepted⟩
    · cases heq
    · cases heq
    · exact haccepted.ok p

/-! ## The two searches -/

/-- The slots in use of every node of the tree. -/
def slots (s : VmaSnapshot) : List ℕ :=
  match s.root with
  | none => []
  | some root => VmaTree.slots root.1 root.2

theorem lookup_eq_some {s : VmaSnapshot} (h : s.Good) {a : ℕ} {v : Vma} :
    s.lookup a = some v ↔ v ∈ s.ranges ∧ v.start ≤ a ∧ a < v.stop := by
  rw [lookup_eq h.ordered h.root, h.ordered.find_iff, contains_iff]

/-- The check that a range is mapped reaches every page: each round moves on by a page at least. -/
theorem memoryValidateMapped_ok {s : VmaSnapshot} (h : s.Good) {stop fuel cursor : ℕ}
    (hcursor : cursor % pageSize = 0) (hstop : stop % pageSize = 0)
    (hfuel : stop ≤ cursor + fuel * pageSize)
    (hok : Space.memoryValidateMapped s stop fuel cursor = .ok) {a : ℕ} (hle : cursor ≤ a)
    (hlt : a < stop) : ∃ v, s.lookup a = some v := by
  induction fuel generalizing cursor with
  | zero => omega
  | succ fuel ih =>
    rw [Space.memoryValidateMapped, if_pos (by omega)] at hok
    split at hok
    · cases hok
    · next v hnext =>
      split_ifs at hok with hstart
      have hv := (lookup_iff_findNext h.ordered h.root).2 ⟨hnext, Nat.le_of_not_lt hstart⟩
      obtain ⟨hmem, -, hend⟩ := (lookup_eq_some h).1 hv
      by_cases ha : a < v.stop
      · exact ⟨v, (lookup_eq_some h).2 ⟨hmem, by omega, ha⟩⟩
      · have haligned := (h.ordered.valid v hmem).stopAligned
        refine ih ?_ ?_ hok (by omega)
        · rcases min_choice v.stop stop with heq | heq <;> rw [heq]
          · exact haligned
          · exact hstop
        · simp only [pageSize] at hcursor hstop haligned hfuel ⊢
          omega

theorem prepared_aligned {address length : ℕ} {r : MemoryRange}
    (h : Space.memoryPrepareRange address length = some r ∨
      Space.memoryPrepareLockRange address length = some r) :
    r.start % pageSize = 0 ∧ r.stop % pageSize = 0 := by
  rcases h with h | h
  · simp only [Space.memoryPrepareRange] at h
    split_ifs at h with h1 h2
    cases h
    have haligned : address % pageSize = 0 := by
      by_contra hne
      exact h1 (Or.inr (Or.inl hne))
    exact ⟨haligned, by simp [Nat.add_mod, haligned]⟩
  · simp only [Space.memoryPrepareLockRange] at h
    split_ifs at h
    cases h
    have haligned : Space.pageOf address % pageSize = 0 := by
      simp only [Space.pageOf, pageSize]
      omega
    exact ⟨haligned, by simp [Nat.add_mod, haligned]⟩

/-- The tree of every reachable snapshot finds the range of an address, as the array and
`minimm_vma_snapshot_find_next` have it, in nodes of at most sixteen slots; and a range that passes
the check of the memory calls is mapped page by page. -/
theorem reachable_lookup {s : VmaSnapshot} (h : s.Reachable) :
    (∀ a v, s.lookup a = some v ↔ v ∈ s.ranges ∧ v.start ≤ a ∧ a < v.stop) ∧
    (∀ n ∈ s.slots, n ≤ 16) ∧
    (∀ a v, s.lookup a = some v ↔ s.findNext a = some v ∧ v.start ≤ a) ∧
    ∀ address length r, (Space.memoryPrepareRange address length = some r ∨
        Space.memoryPrepareLockRange address length = some r) →
      Space.memoryValidateMapped s r.stop r.pageCount r.start = .ok →
      ∀ a, r.start ≤ a → a < r.stop → ∃ v, s.lookup a = some v := by
  have hgood := h.good
  refine ⟨fun a v ↦ lookup_eq_some hgood, fun n hn ↦ ?_,
    fun a v ↦ lookup_iff_findNext hgood.ordered hgood.root,
      fun address length r hr hok a hle hlt ↦ ?_⟩
  · have hroot := hgood.root
    unfold slots at hn
    split at hn
    · cases hn
    · next root heq =>
      rw [heq] at hroot
      exact hroot.2.2 n hn
  · obtain ⟨hstart, hstop⟩ := prepared_aligned hr
    refine memoryValidateMapped_ok hgood hstart hstop ?_ hok hle hlt
    simp only [MemoryRange.pageCount, pageSize] at hstart hstop ⊢
    omega

/-- The snapshot after some edits of which all succeed. -/
def edited (s : VmaSnapshot) : List Edit → Option VmaSnapshot
  | [] => some s
  | e :: rest =>
    match (e.code s).run roomy with
    | .done (.ok, some t) _ => t.edited rest
    | _ => none

theorem Reachable.edited {s t : VmaSnapshot} (h : s.Reachable) {edits : List Edit}
    (ht : s.edited edits = some t) : t.Reachable := by
  induction edits generalizing s with
  | nil =>
    cases ht
    exact h
  | cons e rest ih =>
    rw [VmaSnapshot.edited] at ht
    split at ht
    · next u σ' hrun => exact ih (h.edit hrun) ht
    · cases ht

/-- One of many pages with gaps between them. -/
def scattered (k : ℕ) : Vma := anonymous (0x100000 + k * 0x2000) (0x101000 + k * 0x2000)

/-- More of them than a node has slots. -/
def manyRanges : Option VmaSnapshot :=
  empty.edited ((List.range 20).map fun k ↦ .insert (scattered k))

theorem manyRanges_tree : manyRanges.any (fun s ↦ s.slots == [2, 16, 4] &&
    (s.ranges == (List.range 20).map scattered)) = true := by
  decide +kernel

/-- The search goes through an inner node to the second leaf. -/
theorem reachable_lookup_manyRanges : ∃ s : VmaSnapshot, s.Reachable ∧ s.slots = [2, 16, 4] ∧
    s.lookup 0x122fff = some (scattered 17) ∧ s.lookup 0x123000 = none := by
  obtain ⟨s, hs, htree⟩ := (Option.any_eq_true _ _).1 manyRanges_tree
  rw [Bool.and_eq_true, beq_iff_eq, beq_iff_eq] at htree
  obtain ⟨hslots, hranges⟩ := htree
  have hreach := empty_reachable.edited hs
  have hlookup := (reachable_lookup hreach).1
  refine ⟨s, hreach, hslots, (hlookup _ _).2 ⟨?_, by decide, by decide⟩, ?_⟩
  · rw [hranges]
    exact List.mem_map_of_mem (List.mem_range.2 (by decide))
  · refine Option.eq_none_iff_forall_ne_some.2 fun v hv ↦ ?_
    obtain ⟨hmem, hle, hlt⟩ := (hlookup _ _).1 hv
    rw [hranges] at hmem
    obtain ⟨k, -, rfl⟩ := List.mem_map.1 hmem
    simp only [scattered, anonymous] at hle hlt
    omega

end VmaSnapshot

end MiniMM
