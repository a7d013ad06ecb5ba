import MiniMM.Spec.Lock

/-!
# The pages and the tree of a lineage

What the functions on notes do to the data that the lock of a lineage protects.
-/

namespace MiniMM

open Handle

/-! ## Page lists -/

namespace CachedPages

variable {pages : CachedPages} {offset : ℕ} {f : FrameId}

theorem mem_of_find (h : find offset pages = some f) : (offset, f) ∈ pages := by
  induction pages with
  | nil => cases h
  | cons q rest ih =>
    obtain ⟨o, g⟩ := q
    simp only [find] at h
    split_ifs at h with hlt heq
    · exact List.mem_cons_of_mem _ (ih h)
    · cases h
      subst heq
      exact List.mem_cons_self

theorem ref_mem_sites {q : ℕ × FrameId} (h : q ∈ pages) : ref q.2 ∈ pages.sites :=
  Multiset.mem_coe.2 (List.mem_map_of_mem h)

theorem sites_append (p q : CachedPages) : sites (p ++ q) = sites p + sites q := by
  simp [sites]

theorem sites_insert : sites (insert offset f pages) = {ref f} + sites pages := by
  induction pages with
  | nil => rfl
  | cons q rest ih =>
    obtain ⟨o, g⟩ := q
    simp only [insert]
    split_ifs with hlt
    · rw [sites_cons, ih, sites_cons]
      ac_rfl
    · rfl

theorem mem_insert {q : ℕ × FrameId} :
    q ∈ insert offset f pages ↔ q = (offset, f) ∨ q ∈ pages := by
  induction pages with
  | nil => simp [insert]
  | cons p rest ih =>
    obtain ⟨o, g⟩ := p
    simp only [insert]
    split_ifs with hlt
    · rw [List.mem_cons, ih, List.mem_cons]
      tauto
    · simp

theorem Sorted.insert (h : Sorted pages) (hnone : find offset pages = none) :
    Sorted (CachedPages.insert offset f pages) := by
  induction pages with
  | nil => exact List.pairwise_singleton _ _
  | cons q rest ih =>
    obtain ⟨o, g⟩ := q
    obtain ⟨hhead, hrest⟩ := List.pairwise_cons.1 h
    simp only [find] at hnone
    simp only [CachedPages.insert]
    split_ifs at hnone ⊢ with hlt heq
    · refine List.pairwise_cons.2 ⟨fun q hq ↦ ?_, ih hrest hnone⟩
      rcases mem_insert.1 hq with rfl | hq
      · exact hlt
      · exact hhead q hq
    · refine List.pairwise_cons.2 ⟨fun q hq ↦ ?_, h⟩
      have hlt' : offset < o := by omega
      rcases List.mem_cons.1 hq with rfl | hq
      · exact hlt'
      · exact hlt'.trans (hhead q hq)

theorem detachFrom_append (offset : ℕ) (pages : CachedPages) :
    (detachFrom offset pages).1 ++ (detachFrom offset pages).2 = pages := by
  induction pages with
  | nil => rfl
  | cons q rest ih =>
    obtain ⟨o, g⟩ := q
    simp only [detachFrom]
    split_ifs
    · rw [List.cons_append, ih]
    · rfl

theorem lt_of_mem_detachFrom {q : ℕ × FrameId} (h : q ∈ (detachFrom offset pages).1) :
    q.1 < offset := by
  induction pages with
  | nil => cases h
  | cons p rest ih =>
    obtain ⟨o, g⟩ := p
    simp only [detachFrom] at h
    split_ifs at h with hlt
    · rcases List.mem_cons.1 h with rfl | h
      · exact hlt
      · exact ih h
    · cases h

end CachedPages

/-! ## The data of a lineage -/

namespace Lineage

variable {v v' : Lineage} {n k : NoteId} {b : NoteBody} {s : Sys} {l : LineageId}

@[simp] theorem members_setBody : (v.setBody n b).members = v.members := rfl

@[simp] theorem body_setBody_self : (v.setBody n b).body n = b := Function.update_self _ _ _

theorem body_setBody_of_ne (h : k ≠ n) : (v.setBody n b).body k = v.body k :=
  Function.update_of_ne h _ _

theorem sites_setBody (hnodup : v.members.Nodup) (hn : n ∈ v.members) :
    (v.setBody n b).sites + (v.body n).sites = v.sites + b.sites := by
  have hsum : ∀ u : Lineage, u.members = v.members →
      u.sites = ∑ k ∈ v.members.toFinset, (u.body k).sites := fun u hu ↦ by
    rw [sites, hu, List.sum_toFinset _ hnodup]
  rw [hsum (v.setBody n b) rfl, hsum v rfl]
  have hch := Tally.sum_change (f := fun k ↦ ((v.setBody n b).body k).sites)
    (g := fun k ↦ (v.body k).sites) (List.mem_toFinset.2 hn)
    fun k hk ↦ by rw [body_setBody_of_ne hk]
  rwa [body_setBody_self] at hch

theorem body_sites_le (hn : n ∈ v.members) : (v.body n).sites ≤ v.sites := by
  obtain ⟨left, right, hlist⟩ := List.append_of_mem hn
  rw [sites, hlist, List.map_append, List.map_cons, List.sum_append, List.sum_cons]
  exact le_add_left le_self_add

theorem pages_sites_le (hn : n ∈ v.members) : (v.pages n).sites ≤ v.sites :=
  (show (v.pages n).sites ≤ (v.body n).sites from le_self_add).trans (body_sites_le hn)

theorem sites_setPages (hnodup : v.members.Nodup) (hn : n ∈ v.members) (pages : CachedPages) :
    (v.setPages n pages).sites + (v.pages n).sites = v.sites + pages.sites := by
  have h := sites_setBody (b := { v.body n with pages := pages }) hnodup hn
  simp only [NoteBody.sites] at h
  refine add_right_cancel (b := parentSites (v.body n).cowParent) ?_
  rw [add_assoc, add_assoc]
  exact h

/-- The notes of a lineage are related as before. -/
structure Kin (v v' : Lineage) : Prop where
  members : v'.members = v.members
  parent : ∀ n, (v'.body n).cowParent = (v.body n).cowParent
  children : ∀ n, (v'.body n).children = (v.body n).children
  inherited : ∀ n, (v'.body n).inheritedSize = (v.body n).inheritedSize

namespace Kin

theorem refl : Kin v v := ⟨rfl, fun _ ↦ rfl, fun _ ↦ rfl, fun _ ↦ rfl⟩

theorem trans {v'' : Lineage} (h : Kin v v') (h' : Kin v' v'') : Kin v v'' :=
  ⟨h'.members.trans h.members, fun n ↦ (h'.parent n).trans (h.parent n),
    fun n ↦ (h'.children n).trans (h.children n), fun n ↦ (h'.inherited n).trans (h.inherited n)⟩

theorem setPages (pages : CachedPages) : Kin v (v.setPages n pages) := by
  have hbody : ∀ k, (v.setPages n pages).body k =
      { v.body k with pages := ((v.setPages n pages).body k).pages } := by
    intro k
    by_cases hk : k = n
    · subst hk
      simp [Lineage.setPages]
    · rw [Lineage.setPages, body_setBody_of_ne hk]
  exact ⟨rfl, fun k ↦ by rw [hbody], fun k ↦ by rw [hbody], fun k ↦ by rw [hbody]⟩

end Kin

theorem pages_setPages_self (pages : CachedPages) : (v.setPages n pages).pages n = pages := by
  simp [Lineage.pages, Lineage.setPages]

theorem pages_setPages_of_ne (h : k ≠ n) (pages : CachedPages) :
    (v.setPages n pages).pages k = v.pages k := by
  rw [Lineage.pages, Lineage.setPages, body_setBody_of_ne h, Lineage.pages]

end Lineage

namespace LineageOk

variable {v v' : Lineage} {n : NoteId} {s : Sys} {l : LineageId}

theorem of_kin (h : LineageOk s l v) (hkin : v.Kin v')
    (hsorted : ∀ n ∈ v.members, (v'.pages n).Sorted)
    (hpage : ∀ n ∈ v.members, ∀ q ∈ v'.pages n,
      q.1 % pageSize = 0 ∧ q.1 + pageSize ≤ s.noteSize n) :
    LineageOk s l v' where
  nodup := hkin.members ▸ h.nodup
  member n := by
    rw [hkin.members]
    exact h.member n
  parent n hn p hp := by
    rw [hkin.members] at hn
    rw [hkin.parent] at hp
    rw [hkin.members, hkin.children, hkin.inherited]
    exact h.parent n hn p hp
  child n hn k hk := by
    rw [hkin.members] at hn
    rw [hkin.children] at hk
    rw [hkin.members, hkin.parent]
    exact h.child n hn k hk
  childrenNodup n hn := by
    rw [hkin.members] at hn
    rw [hkin.children]
    exact h.childrenNodup n hn
  sorted n hn := hsorted n (hkin.members ▸ hn)
  page n hn := hpage n (hkin.members ▸ hn)
  size n hn := h.size n (hkin.members ▸ hn)

theorem setPages (h : LineageOk s l v) {pages : CachedPages} (hsorted : pages.Sorted)
    (hpage : ∀ q ∈ pages, q.1 % pageSize = 0 ∧ q.1 + pageSize ≤ s.noteSize n) :
    LineageOk s l (v.setPages n pages) := by
  refine h.of_kin (.setPages pages) (fun k hk ↦ ?_) fun k hk ↦ ?_ <;> by_cases hkn : k = n
  · subst hkn
    rwa [Lineage.pages_setPages_self]
  · rw [Lineage.pages_setPages_of_ne hkn]
    exact h.sorted k hk
  · subst hkn
    rwa [Lineage.pages_setPages_self]
  · rw [Lineage.pages_setPages_of_ne hkn]
    exact h.page k hk

theorem insertPage (h : LineageOk s l v) (hn : n ∈ v.members) {offset : ℕ} {f : FrameId}
    (hnone : (v.pages n).find offset = none) (haligned : offset % pageSize = 0)
    (hsize : offset + pageSize ≤ s.noteSize n) :
    LineageOk s l (v.setPages n ((v.pages n).insert offset f)) := by
  refine h.setPages ((h.sorted n hn).insert hnone) fun q hq ↦ ?_
  rcases CachedPages.mem_insert.1 hq with rfl | hq
  · exact ⟨haligned, hsize⟩
  · exact h.page n hn q hq

theorem inherited_inside (h : LineageOk s l v) (hn : n ∈ v.members) {parent : NoteId}
    (hp : (v.body n).cowParent = some parent) {offset : ℕ} (haligned : offset % pageSize = 0)
    (hlt : offset < (v.body n).inheritedSize) :
    parent ∈ v.members ∧ offset + pageSize ≤ s.noteSize parent := by
  obtain ⟨-, hmem, -, -, hle⟩ := h.parent n hn parent hp
  have hsize := h.size parent hmem
  refine ⟨hmem, ?_⟩
  simp only [pageSize] at *
  omega

theorem setInherited (h : LineageOk s l v) {size : ℕ} (hle : size ≤ (v.body n).inheritedSize) :
    LineageOk s l (v.setBody n { v.body n with inheritedSize := size }) := by
  have hbody : ∀ k, ∃ i ≤ (v.body k).inheritedSize,
      (v.setBody n { v.body n with inheritedSize := size }).body k =
        { v.body k with inheritedSize := i } := by
    intro k
    by_cases hk : k = n
    · subst hk
      exact ⟨size, hle, by simp⟩
    · exact ⟨_, le_rfl, by rw [Lineage.body_setBody_of_ne hk]⟩
  refine ⟨h.nodup, h.member, fun k hk p hp ↦ ?_, fun k hk j hj ↦ ?_, fun k hk ↦ ?_, fun k hk ↦ ?_,
    fun k hk ↦ ?_, h.size⟩
  · obtain ⟨i, hi, heq⟩ := hbody k
    obtain ⟨j, -, hpeq⟩ := hbody p
    rw [heq] at hp ⊢
    rw [hpeq]
    obtain ⟨h1, h2, h3, h4, h5⟩ := h.parent k hk p hp
    exact ⟨h1, h2, h3, hi.trans h4, hi.trans h5⟩
  · obtain ⟨i, -, heq⟩ := hbody k
    obtain ⟨i', -, hjeq⟩ := hbody j
    rw [heq] at hj
    rw [hjeq]
    exact h.child k hk j hj
  · obtain ⟨i, -, heq⟩ := hbody k
    rw [heq]
    exact h.childrenNodup k hk
  · obtain ⟨i, -, heq⟩ := hbody k
    rw [heq]
    exact h.sorted k hk
  · obtain ⟨i, -, heq⟩ := hbody k
    rw [heq]
    exact h.page k hk

end LineageOk

namespace Lineage

variable {v : Lineage} {n : NoteId} {s : Sys} {l : LineageId}

theorem sites_setInherited (size : ℕ) :
    (v.setBody n { v.body n with inheritedSize := size }).sites = v.sites := by
  rw [sites, sites]
  refine congrArg List.sum (List.map_congr_left fun k _ ↦ ?_)
  by_cases hk : k = n
  · subst hk
    rw [body_setBody_self]
    rfl
  · rw [body_setBody_of_ne hk]

end Lineage

/-- What the last loop of `minimm_note_preserve_truncated_children_locked` leaves. -/
structure Clamped (newSize : ℕ) (children : List NoteId) (v v' : Lineage) : Prop where
  sites : v'.sites = v.sites
  members : v'.members = v.members
  tree : ∀ n, (v'.body n).children = (v.body n).children
  le : ∀ n, (v'.body n).inheritedSize ≤ (v.body n).inheritedSize
  clamped : ∀ n ∈ children, (v'.body n).inheritedSize ≤ newSize

theorem clampInherited_clamped (newSize : ℕ) (children : List NoteId) (v : Lineage) :
    Clamped newSize children v (Note.clampInherited newSize children v) := by
  induction children generalizing v with
  | nil => exact ⟨rfl, rfl, fun _ ↦ rfl, fun _ ↦ le_rfl, fun _ h ↦ nomatch h⟩
  | cons k rest ih =>
    have h := ih (v.setBody k
      { v.body k with inheritedSize := min (v.body k).inheritedSize newSize })
    have hbody : ∀ n, ((v.setBody k { v.body k with
        inheritedSize := min (v.body k).inheritedSize newSize }).body n).children =
          (v.body n).children ∧
        ((v.setBody k { v.body k with
          inheritedSize := min (v.body k).inheritedSize newSize }).body n).inheritedSize ≤
          (v.body n).inheritedSize := by
      intro n
      by_cases hn : n = k
      · subst hn
        simp
      · simp [Lineage.body_setBody_of_ne hn]
    rw [Note.clampInherited]
    refine ⟨h.sites.trans (Lineage.sites_setInherited _), h.members,
      fun n ↦ (h.tree n).trans (hbody n).1, fun n ↦ (h.le n).trans (hbody n).2, fun n hn ↦ ?_⟩
    rcases List.mem_cons.1 hn with rfl | hn
    · refine (h.le n).trans ?_
      simp
    · exact h.clamped n hn

theorem LineageOk.clampInherited {s : Sys} {l : LineageId} (newSize : ℕ) (children : List NoteId)
    {v : Lineage} (h : LineageOk s l v) :
    LineageOk s l (Note.clampInherited newSize children v) := by
  induction children generalizing v with
  | nil => exact h
  | cons k rest ih => exact ih (h.setInherited (min_le_left _ _))

end MiniMM
