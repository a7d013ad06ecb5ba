import MiniMM.Logic.World

/-!
# Counting handles

How often a handle occurs in the data structures of a system.
-/

namespace MiniMM

open Handle

namespace Sys

theorem sum_locks {M : Type*} [AddCommMonoid M] (s : Sys) (g : LockId → M) :
    ∑ l ∈ s.locks, g l = ∑ i ∈ Finset.range s.nextSpace, g (.space i) +
      ∑ i ∈ Finset.range s.nextSpace, g (.brk i) +
      ∑ b ∈ Finset.range s.nextBacking, g (.backing b) +
      ∑ l ∈ Finset.range s.nextLineage, g (.lineage l) := by
  rw [locks, Finset.sum_union, Finset.sum_union, Finset.sum_union, Finset.sum_image,
    Finset.sum_image, Finset.sum_image, Finset.sum_image]
  · exact fun a _ b _ h ↦ LockId.lineage.inj h
  · exact fun a _ b _ h ↦ LockId.backing.inj h
  · exact fun a _ b _ h ↦ LockId.brk.inj h
  · exact fun a _ b _ h ↦ LockId.space.inj h
  all_goals
    simp only [Finset.disjoint_left, Finset.mem_union, Finset.mem_image]
    grind

end Sys

section Counts

variable {x : Handle}

theorem CachedPages.count_sites (pages : CachedPages) :
    pages.sites.count x = pages.countP fun q ↦ ref q.2 = x := by
  induction pages with
  | nil => rfl
  | cons q rest ih =>
    rw [CachedPages.sites_cons, Multiset.count_add, ih, List.countP_cons,
      Multiset.count_singleton, add_comm]
    simp [eq_comm]

theorem count_bindingSites (bindings : List Binding) :
    (bindingSites bindings).count x = bindings.countP fun b ↦ backing b.backing = x := by
  induction bindings with
  | nil => rfl
  | cons b rest ih =>
    rw [bindingSites_cons, Multiset.count_add, ih, List.countP_cons, Multiset.count_singleton,
      add_comm]
    simp [eq_comm]

theorem Tlb.count_sites (t : Tlb) : t.sites.count x = ∑ k ∈ Finset.range t.capacity,
    if (t.entries k).any fun e ↦ ref e.translation.frame = x then 1 else 0 := by
  rw [Tlb.sites, Multiset.count_sum']
  refine Finset.sum_congr rfl fun k _ ↦ ?_
  cases t.entries k with
  | none => rfl
  | some e => simp [tlbEntrySites, Multiset.count_singleton, eq_comm]

theorem BackingInfo.count_sites (i : BackingInfo) :
    i.sites.count x =
      if ∃ n, i.note = some n ∧ (x = Handle.note n ∨ x = mapping n) then 1 else 0 := by
  rw [BackingInfo.sites]
  cases i.note with
  | none => simp
  | some n =>
    change (Handle.note n ::ₘ ({mapping n} : Multiset Handle)).count x = _
    rw [Multiset.count_cons, Multiset.count_singleton]
    by_cases hn : x = Handle.note n
    · subst hn
      simp
    · simp [hn]

theorem Lineage.count_sites (v : Lineage) : v.sites.count x =
    (v.members.map fun n ↦ (CachedPages.sites (v.pages n)).count x).sum +
      v.members.countP fun k ↦ (v.body k).cowParent.any fun n ↦ note n = x := by
  rw [Lineage.sites]
  induction v.members with
  | nil => rfl
  | cons n rest ih =>
    have hparent : (parentSites (v.body n).cowParent).count x =
        if (v.body n).cowParent.any fun n ↦ note n = x then 1 else 0 := by
      cases (v.body n).cowParent with
      | none => rfl
      | some p => simp [parentSites, Multiset.count_singleton, eq_comm]
    rw [List.map_cons, List.sum_cons, Multiset.count_add, ih, NoteBody.sites, Multiset.count_add,
      hparent, List.map_cons, List.sum_cons, List.countP_cons, Lineage.pages]
    omega

end Counts

namespace Sys

variable {s : Sys} {x : Handle}

theorem count_stored_entry (hx : ∃ f, x = .map f ∨ x = .pin f) : s.stored.count x =
    ∑ i ∈ Finset.range s.nextSpace,
      if s.held (.space i) then 0 else (s.space i).pageTable.sites.count x := by
  obtain ⟨f, hf⟩ := hx
  have hpages : ∀ pages : CachedPages, pages.sites.count x = 0 := fun pages ↦ by
    rw [CachedPages.count_sites]
    rcases hf with rfl | rfl <;> simp
  have htlb : ∀ i, (s.tlb i).sites.count x = 0 := fun i ↦ by
    rw [Tlb.count_sites]
    rcases hf with rfl | rfl <;> simp
  have hinfo : ∀ b, (s.infoPart b).count x = 0 := fun b ↦ by
    rw [infoPart]
    split_ifs
    · rfl
    · rw [BackingInfo.count_sites]
      rcases hf with rfl | rfl <;> simp
  have hbacking : ∀ b, (s.unheldPart (.backing b)).count x = 0 := fun b ↦ by
    rw [unheldPart, guarded]
    split_ifs
    · rfl
    · rfl
    · exact hpages _
  have hlineage : ∀ l, (s.unheldPart (.lineage l)).count x = 0 := fun l ↦ by
    rw [unheldPart, guarded]
    split_ifs
    · rfl
    · rw [Lineage.count_sites]
      rcases hf with rfl | rfl <;> simp [CachedPages.count_sites]
  have hbrk : ∀ i, (s.unheldPart (.brk i)).count x = 0 := fun i ↦ by
    rw [unheldPart, guarded, ite_self, Multiset.count_zero]
  rw [stored, Multiset.count_add, Multiset.count_add, tlbStored, infoStored, sum_locks]
  simp only [Multiset.count_add, Multiset.count_sum', htlb, hinfo, hbacking, hlineage, hbrk,
    Finset.sum_const_zero, zero_add, add_zero]
  refine Finset.sum_congr rfl fun i _ ↦ ?_
  rw [unheldPart, guarded]
  split_ifs
  · rfl
  · rw [Space.sites, Multiset.count_add, count_bindingSites]
    rcases hf with rfl | rfl <;> simp

end Sys

end MiniMM
