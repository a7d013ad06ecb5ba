import MiniMM.Spec.Mapping

/-!
# Specification of `minimm_mapping_copy`

The entries of the source are put at the destination one by one, and then marked as shared with it.
An error undoes what has been done.
-/

namespace MiniMM

open Handle Vma PageTable VmaSnapshot

/-! ## Collecting entries -/

namespace PageTable

variable {μ : Mode} {t : PageTable} {g : ℕ → Option Pte} {start stop : ℕ} {l : List (ℕ × Pte)}

/-- `l` has the entries of the pages of an interval, in ascending order. -/
structure Collects (g : ℕ → Option Pte) (start stop : ℕ) (l : List (ℕ × Pte)) : Prop where
  sorted : l.Pairwise fun x y ↦ x.1 < y.1
  mem : ∀ k pte, (k, pte) ∈ l ↔ g k = some pte ∧ Within start stop k

theorem Collects.nodup (h : Collects g start stop l) : (l.map Prod.fst).Nodup := by
  rw [List.nodup_iff_pairwise_ne, List.pairwise_map]
  exact h.sorted.imp fun hlt ↦ hlt.ne

/-- The entries as `minimm_mapping_collect_copy_pages_locked` keeps them. -/
def byAddress (l : List (ℕ × Pte)) : List (ℕ × Pte) := l.map fun e ↦ (e.1 * pageSize, e.2)

/-- The entries of the pages of an interval. -/
def entriesWithin (t : PageTable) (start stop : ℕ) : List (ℕ × Pte) :=
  t.entries.filter fun e ↦ decide (start ≤ e.1 * pageSize) && decide (e.1 * pageSize < stop)

theorem collects_entriesWithin (h : t.Has g) (start stop : ℕ) :
    Collects g start stop (t.entriesWithin start stop) := by
  obtain ⟨m, hm⟩ := h.good
  refine ⟨(Radix.entries_sorted t.root 0).filter _, fun k pte ↦ ?_⟩
  rw [entriesWithin, List.mem_filter, hm.mem_entries, ← hm.pte, h.pte, Bool.and_eq_true,
    decide_eq_true_eq, decide_eq_true_eq]
  rfl

theorem filter_byAddress (t : PageTable) (start stop : ℕ) :
    (t.entries.map fun e ↦ (e.1 * pageSize, e.2)).filter (fun e ↦
      decide (start ≤ e.1) && decide (e.1 < stop)) = byAddress (t.entriesWithin start stop) :=
  List.filter_map

theorem collectCopyPages_returns (h : t.Has g) {p : Code (Status × List (ℕ × Pte))}
    (hp : Space.collectCopyPages t start stop = p) : p.Mallocs (fun _ ↦ True) fun r ↦
      r.1 = .ok ∧ (∃ l, r.2 = byAddress l ∧ Collects g start stop l) ∨ r.1 ≠ .ok := by
  have hcollects := collects_entriesWithin h start stop
  rw [← hp]
  unfold Space.collectCopyPages
  dsimp only
  rw [filter_byAddress]
  generalize t.entriesWithin start stop = l at hcollects ⊢
  split_ifs with hempty
  · exact .inl ⟨rfl, l, (List.isEmpty_iff.1 hempty).symm, hcollects⟩
  · exact .inr nofun
  · exact Code.Mallocs.malloc (fun _ ↦ .inr nofun) (.inl ⟨rfl, l, rfl, hcollects⟩)

theorem collectCopyPages_spec (h : t.Has g) {p : Code (Status × List (ℕ × Pte))}
    (hp : Space.collectCopyPages t start stop = p) :
    Triple μ 0 0 (fun _ ↦ True) p (fun _ ↦ 0) fun r _ ↦
      r.1 = .ok ∧ (∃ l, r.2 = byAddress l ∧ Collects g start stop l) ∨ r.1 ≠ .ok :=
  (collectCopyPages_returns h hp).triple

/-! ## Entries put in place one by one -/

variable {slot : ℕ → ℕ} {f : Pte → Option Pte} {p : ℕ}

/-- The entries after the page `slot k` has got `f pte` for each `(k, pte)` of a list. -/
def putAll (slot : ℕ → ℕ) (f : Pte → Option Pte) (l : List (ℕ × Pte)) (g : ℕ → Option Pte) :
    ℕ → Option Pte :=
  l.foldl (fun g e ↦ Function.update g (slot e.1) (f e.2)) g

theorem putAll_append (l l' : List (ℕ × Pte)) :
    putAll slot f (l ++ l') g = putAll slot f l' (putAll slot f l g) :=
  List.foldl_append

theorem putAll_of_not (h : ∀ e ∈ l, slot e.1 ≠ p) : putAll slot f l g p = g p := by
  induction l generalizing g with
  | nil => rfl
  | cons e rest ih =>
    rw [List.forall_mem_cons] at h
    exact (ih h.2).trans (Function.update_of_ne h.1.symm _ _)

theorem putAll_of_mem (slot : ℕ → ℕ) (f : Pte → Option Pte) {e : ℕ × Pte} (he : e ∈ l)
    (hinj : ∀ e' ∈ l, slot e'.1 = slot e.1 → e' = e) :
    putAll slot f l g (slot e.1) = f e.2 := by
  induction l generalizing g with
  | nil => cases he
  | cons e' rest ih =>
    rw [List.forall_mem_cons] at hinj
    by_cases hrest : e ∈ rest
    · exact ih hrest hinj.2
    · obtain rfl : e = e' := (List.mem_cons.1 he).resolve_right hrest
      refine (putAll_of_not (l := rest) fun e' he' heq ↦ ?_).trans (Function.update_self _ _ _)
      exact hrest (hinj.2 e' he' heq ▸ he')

theorem putAll_none_of_none (h : g p = none) : putAll slot (fun _ ↦ none) l g p = none := by
  induction l generalizing g with
  | nil => exact h
  | cons e rest ih =>
    refine ih (g := Function.update g (slot e.1) none) ?_
    by_cases hp : p = slot e.1
    · rw [hp, Function.update_self]
    · rw [Function.update_of_ne hp, h]

theorem putAll_none (hfree : ∀ e ∈ l, g (slot e.1) = none) {g' : ℕ → Option Pte}
    (hg' : ∀ p, (∀ e ∈ l, slot e.1 ≠ p) → g' p = g p) (p : ℕ) :
    putAll slot (fun _ ↦ none) l g' p = g p := by
  by_cases hp : ∀ e ∈ l, slot e.1 ≠ p
  · rw [putAll_of_not hp, hg' p hp]
  · push Not at hp
    obtain ⟨e, he, rfl⟩ := hp
    rw [hfree e he]
    obtain ⟨l1, l2, rfl⟩ := List.append_of_mem he
    rw [putAll_append]
    refine putAll_none_of_none (l := l2) ?_
    exact Function.update_self (slot e.1) none (putAll slot (fun _ ↦ none) l1 g')

end PageTable

namespace Space

variable {μ : Mode} {i : SpaceId} {bad : Set ℕ} {c : Space} {t : PageTable} {g : ℕ → Option Pte}
  {a d : ℕ} {copyOnWrite : Bool}

/-! ## Copies of entries -/

/-- The page at the offset of `k` in the destination. -/
def moved (a d k : ℕ) : ℕ := d + (k - a)

theorem moved_address (a d k : ℕ) :
    d * pageSize + (k * pageSize - a * pageSize) = moved a d k * pageSize := by
  rw [moved, Nat.add_mul, Nat.sub_mul]

theorem unmapCopyPages_spec (l : List (ℕ × Pte)) (ht : t.Has g) :
    Triple μ 0 t.sites (fun s ↦ LockedResident μ s t bad)
      (unmapCopyPages (a * pageSize) (d * pageSize) (byAddress l) t) (fun t' ↦ t'.sites)
      fun t' s ↦ LockedResident μ s t' bad ∧ t'.Has (putAll (moved a d) (fun _ ↦ none) l g) := by
  induction l generalizing t g with
  | nil => exact .pure rfl fun _ h ↦ ⟨h, ht⟩
  | cons e rest ih =>
    intro s x w hK hat h
    rw [byAddress, List.map_cons, unmapCopyPages, moved_address, ht.lookup_page]
    cases hpte : g (moved a d e.1) with
    | none =>
      have hsame : Function.update g (moved a d e.1) none = g := by
        rw [← hpte]
        exact Function.update_eq_self _ _
      exact ih (ht.congr fun p ↦ (congrFun hsame p).symm) s x w hK hat h
    | some pte =>
      refine (unmap_at ht (ht.user hpte)).first hat h ?_
      rintro ⟨status, t'⟩ w1 hat1 - ⟨hlocked, hhas⟩
      exact ih hhas s x w1 hK (hat1.congr (add_zero _)) hlocked

/-- The entry that `minimm_mapping_copy_ptes_locked` makes. -/
def copiedPte (copyOnWrite : Bool) (pte : Pte) : Pte :=
  mappedPte pte.frame pte.protection (copyFlags copyOnWrite pte.flags)

theorem copyPtesLocked_spec (l done : List (ℕ × Pte)) (hsource : ∀ e ∈ l, g e.1 = some e.2)
    (hfree : ∀ e ∈ done ++ l, g (moved a d e.1) = none)
    (ht : t.Has (putAll (moved a d) (fun pte ↦ some (copiedPte copyOnWrite pte)) done g)) :
    Triple μ 0 t.sites (fun s ↦ LockedResident μ s t bad)
      (copyPtesLocked (a * pageSize) (d * pageSize) copyOnWrite (byAddress l) (byAddress done) t)
      (fun r ↦ r.2.sites)
      fun r s ↦ LockedResident μ s r.2 bad ∧
        (r.1 = .ok ∧ r.2.Has
            (putAll (moved a d) (fun pte ↦ some (copiedPte copyOnWrite pte)) (done ++ l) g) ∨
          r.1 ≠ .ok ∧ r.2.Has g) := by
  induction l generalizing done t with
  | nil =>
    refine .pure rfl fun _ h ↦ ⟨h, .inl ⟨rfl, ?_⟩⟩
    rw [List.append_nil]
    exact ht
  | cons e rest ih =>
    intro s x w hK hat h
    rw [List.forall_mem_cons] at hsource
    -- the source page is none of those that have been filled
    have hpte : t.pte e.1 = some e.2 := by
      rw [ht.pte, putAll_of_not, hsource.1]
      intro e' he' heq
      have hnone := hfree e' (List.mem_append_left _ he')
      rw [heq, hsource.1] at hnone
      cases hnone
    have href : ref e.2.frame ∈ 0 + t.sites := by
      rw [zero_add]
      exact Multiset.mem_of_le (Inv.pte_sites_le hpte) (Inv.ref_mem_sites e.2)
    have hunlocked : ¬(copyFlags copyOnWrite e.2.flags).locked = true := by simp [copyFlags]
    have hmap : Triple μ 0 t.sites (fun s ↦ LockedResident μ s t bad)
        (t.map (moved a d e.1 * pageSize) e.2.frame e.2.protection
          (copyFlags copyOnWrite e.2.flags)) (fun r ↦ r.2.sites)
        fun r s ↦ LockedResident μ s r.2 bad ∧ Mapped _ (moved a d e.1 * pageSize) e.2.frame
          e.2.protection (copyFlags copyOnWrite e.2.flags) r :=
      (map_at bad ht href fun _ hl ↦ absurd hl hunlocked).pre
        (fun _ h ↦ ⟨h, fun _ hl ↦ absurd hl hunlocked⟩)
    rw [byAddress, List.map_cons, copyPtesLocked, moved_address]
    refine hmap.first hat h ?_
    rintro ⟨status, t'⟩ w1 hat1 - ⟨hlocked, hmapped⟩
    rw [add_zero] at hat1
    dsimp only at hat1 hlocked hmapped ⊢
    rcases hmapped with ⟨hok, -, -, -, hhas⟩ | ⟨hbad, hhas⟩
    · dsimp only at hok hhas
      rw [Nat.mul_div_cancel _ (by decide)] at hhas
      rw [if_neg (by rw [hok]; simp)]
      have hdone : byAddress done ++ [(e.1 * pageSize, e.2)] = byAddress (done ++ [e]) := by
        simp [byAddress]
      rw [hdone]
      have hrest := ih (done ++ [e]) hsource.2 (by simpa using hfree)
        (t := t') (by rw [putAll_append]; exact hhas) s x w1 hK hat1 hlocked
      rw [List.append_assoc] at hrest
      exact hrest
    · rw [if_pos hbad]
      refine (unmapCopyPages_spec done hhas).first hat1 hlocked
        fun t'' w2 hat2 _ ⟨hlocked2, hhas2⟩ ↦ ?_
      refine ⟨hat2.congr (add_zero _), hlocked2, .inr ⟨hbad, hhas2.congr ?_⟩⟩
      exact putAll_none (fun e he ↦ hfree e (List.mem_append_left _ he))
        fun p hp ↦ putAll_of_not hp

/-- The entry that `minimm_mapping_update_source_copy_state_locked` leaves at the source. -/
def sourcePte (copyOnWrite : Bool) (pte : Pte) : Pte :=
  revised pte pte.frame pte.protection { cow := copyOnWrite }
    { shared := true, cow := !copyOnWrite }

theorem updateSourceState_spec (l done : List (ℕ × Pte)) (ht : t.Has g)
    (hnodup : (l.map Prod.fst).Nodup) (hsource : ∀ e ∈ l, g e.1 = some e.2) :
    Triple μ 0 t.sites (fun s ↦ LockedResident μ s t bad)
      (updateSourceState copyOnWrite (byAddress l) done t) (fun r ↦ r.2.sites)
      fun r s ↦ LockedResident μ s r.2 bad ∧ r.1 = .ok ∧
        r.2.Has (putAll id (fun pte ↦ some (sourcePte copyOnWrite pte)) l g) := by
  induction l generalizing done t g with
  | nil => exact .pure rfl fun _ h ↦ ⟨h, rfl, ht⟩
  | cons e rest ih =>
    intro s x w hK hat h
    rw [List.forall_mem_cons] at hsource
    rw [List.map_cons, List.nodup_cons] at hnodup
    rw [byAddress, List.map_cons, updateSourceState]
    have hmeets : PteFlags.meets { cow := copyOnWrite } { shared := true, cow := !copyOnWrite } =
        false := by
      simp [PteFlags.meets]
    refine (updateAttributes_at ht hsource.1 rfl rfl hmeets
      fun hl ↦ absurd hl Bool.false_ne_true).first hat h ?_
    rintro ⟨status, t'⟩ w1 hat1 - ⟨hlocked, hok, hhas⟩
    dsimp only at hok
    subst hok
    refine ih ((e.1 * pageSize, e.2) :: done) hhas hnodup.2 (fun e' he' ↦ ?_) s x w1 hK
      (hat1.congr (add_zero _)) hlocked
    rw [Function.update_of_ne, hsource.2 e' he']
    rintro heq
    exact hnodup.1 (heq ▸ List.mem_map_of_mem he')

/-- The entries after `minimm_mapping_copy` of `n` pages. -/
def copyResult (copyOnWrite : Bool) (a d n : ℕ) (g : ℕ → Option Pte) (p : ℕ) : Option Pte :=
  if d ≤ p ∧ p < d + n then (g (a + (p - d))).map (copiedPte copyOnWrite)
  else if a ≤ p ∧ p < a + n then (g p).map (sourcePte copyOnWrite)
  else g p

theorem within_pages {a n p : ℕ} :
    Within (a * pageSize) (a * pageSize + n * pageSize) p ↔ a ≤ p ∧ p < a + n := by
  rw [← Nat.add_mul]
  exact and_congr (Nat.mul_le_mul_right_iff (by decide)) (Nat.mul_lt_mul_right (by decide))

theorem putAll_copyResult {n : ℕ} {l : List (ℕ × Pte)}
    (hl : Collects g (a * pageSize) (a * pageSize + n * pageSize) l)
    (hfree : ∀ p, d ≤ p ∧ p < d + n → g p = none)
    (hdisjoint : ∀ p, a ≤ p ∧ p < a + n → ¬(d ≤ p ∧ p < d + n)) (p : ℕ) :
    putAll id (fun pte ↦ some (sourcePte copyOnWrite pte)) l
        (putAll (moved a d) (fun pte ↦ some (copiedPte copyOnWrite pte)) l g) p =
      copyResult copyOnWrite a d n g p := by
  have hmem : ∀ e ∈ l, g e.1 = some e.2 ∧ a ≤ e.1 ∧ e.1 < a + n := fun e he ↦ by
    obtain ⟨hg, hin⟩ := (hl.mem e.1 e.2).1 he
    exact ⟨hg, within_pages.1 hin⟩
  have hsame : ∀ e ∈ l, ∀ e' ∈ l, e'.1 = e.1 → e' = e := fun e he e' he' heq ↦ by
    refine Prod.ext heq (Option.some.inj ?_)
    rw [← (hmem e' he').1, ← (hmem e he).1, heq]
  have hmoved : ∀ e ∈ l, d ≤ moved a d e.1 ∧ moved a d e.1 < d + n := fun e he ↦ by
    have hin := (hmem e he).2
    simp only [moved]
    omega
  have hbeside : ¬(a ≤ p ∧ p < a + n) → ∀ e ∈ l, id e.1 ≠ p := by
    rintro hp e he rfl
    exact hp (hmem e he).2
  have hclear : ¬(d ≤ p ∧ p < d + n) → ∀ e ∈ l, moved a d e.1 ≠ p := by
    rintro hp e he rfl
    exact hp (hmoved e he)
  unfold copyResult
  split_ifs with hdest hsrc
  · rw [putAll_of_not (hbeside fun hsrc ↦ hdisjoint p hsrc hdest)]
    cases hpte : g (a + (p - d)) with
    | none =>
      rw [putAll_of_not fun e he heq ↦ ?_, hfree p hdest]
      · rfl
      · have hin := hmem e he
        have hpage : e.1 = a + (p - d) := by
          simp only [moved] at heq
          omega
        rw [← hpage, hin.1] at hpte
        cases hpte
    | some pte =>
      have he : (a + (p - d), pte) ∈ l :=
        (hl.mem _ _).2 ⟨hpte, within_pages.2 (by omega)⟩
      have hp : moved a d (a + (p - d)) = p := by
        simp only [moved]
        omega
      have hput := putAll_of_mem (g := g) (moved a d)
        (fun pte ↦ some (copiedPte copyOnWrite pte)) he fun e' he' heq ↦ by
          refine hsame _ he e' he' ?_
          have hin := (hmem e' he').2
          simp only [moved] at heq
          omega
      rw [hp] at hput
      exact hput
  · cases hpte : g p with
    | none =>
      rw [putAll_of_not fun e he heq ↦ ?_, putAll_of_not (hclear hdest), hpte]
      · rfl
      · have hg := (hmem e he).1
        rw [show e.1 = p from heq, hpte] at hg
        cases hg
    | some pte =>
      have he : (p, pte) ∈ l := (hl.mem _ _).2 ⟨hpte, within_pages.2 hsrc⟩
      exact putAll_of_mem id (fun pte ↦ some (sourcePte copyOnWrite pte)) he
        fun e' he' heq ↦ hsame _ he e' he' heq
  · rw [putAll_of_not (hbeside hsrc), putAll_of_not (hclear hdest)]

theorem copyEntries_spec {n : ℕ} {l : List (ℕ × Pte)} (ht : t.Has g)
    (hl : Collects g (a * pageSize) (a * pageSize + n * pageSize) l)
    (hfree : ∀ p, d ≤ p ∧ p < d + n → g p = none)
    (hdisjoint : ∀ p, a ≤ p ∧ p < a + n → ¬(d ≤ p ∧ p < d + n))
    (hlimit : a * pageSize + n * pageSize ≤ userAddressLimit) :
    Triple μ 0 ({lock (.space i)} + t.sites)
      (fun s ↦ Tlb.All (Agrees t) i s ∧ LockedResident μ s t bad)
      (copyEntries i t (a * pageSize) (d * pageSize) (n * pageSize) copyOnWrite (byAddress l))
      (fun r ↦ {lock (.space i)} + r.2.sites)
      fun r s ↦ Tlb.All (Agrees r.2) i s ∧ LockedResident μ s r.2 bad ∧
        (r.1 = .ok ∧ r.2.Has (copyResult copyOnWrite a d n g) ∨ r.1 ≠ .ok ∧ r.2.Has g) := by
  intro s x w hK hat ⟨htlb, hlocked⟩
  have hsource : ∀ e ∈ l, g e.1 = some e.2 := fun e he ↦ ((hl.mem e.1 e.2).1 he).1
  have hslot : ∀ e ∈ l, g (moved a d e.1) = none := fun e he ↦ by
    have hin := within_pages.1 ((hl.mem e.1 e.2).1 he).2
    exact hfree _ (by simp only [moved]; omega)
  refine (copyPtesLocked_spec l [] hsource (by simpa using hslot) ht).seq hat (add_comm _ _)
    zero_le hlocked ?_
  rintro ⟨status, t1⟩ w1 hat1 hk1 ⟨hlocked1, hcopied⟩
  have htlb1 := htlb.keeps hk1 (by simp)
  dsimp only at hat1 hlocked1 hcopied ⊢
  rcases hcopied with ⟨rfl, hhas1⟩ | ⟨hbad, hhas1⟩
  swap
  · rw [if_pos hbad]
    refine ⟨hat1.congr (add_comm _ _), htlb1.mono fun e he ↦ ?_, hlocked1, .inr ⟨hbad, hhas1⟩⟩
    rw [Agrees, hhas1.pte, ← ht.pte]
    exact he
  rw [if_neg (by simp), List.nil_append] at *
  -- the copies hide none of the source entries
  have hsource1 : ∀ e ∈ l, putAll (moved a d) (fun pte ↦ some (copiedPte copyOnWrite pte)) l g e.1 =
      some e.2 := fun e he ↦ by
    rw [putAll_of_not, hsource e he]
    intro e' he' heq
    have hnone := hslot e' he'
    rw [heq, hsource e he] at hnone
    cases hnone
  refine (updateSourceState_spec l [] hhas1 hl.nodup hsource1).seq hat1 rfl zero_le hlocked1 ?_
  rintro ⟨status, t2⟩ w2 hat2 hk2 ⟨hlocked2, hok, hhas2⟩
  dsimp only at hat2 hlocked2 hok hhas2 ⊢
  subst hok
  rw [if_neg (by simp)]
  have hresult := hhas2.congr (putAll_copyResult hl hfree hdisjoint)
  refine (Tlb.invalidateRange_spec (a * pageSize) _).seq hat2 (add_comm _ _) zero_le
    (htlb1.keeps hk2 (by simp)) fun _ w3 hat3 hk3 htlb3 ↦ ?_
  refine (Tlb.invalidateRange_spec (d * pageSize) _).seq hat3 rfl zero_le htlb3
    fun _ w4 hat4 hk4 htlb4 ↦ ?_
  refine ⟨hat4, htlb4.mono fun e he ↦ ?_, ?_, .inl ⟨rfl, hresult⟩⟩
  · -- an entry of the TLB is of a page that had an entry and is not of the source
    have hpte : g e.virtualPage = some e.translation := by
      rw [← ht.pte]
      exact he.1.1
    have hsrc : ¬(a ≤ e.virtualPage ∧ e.virtualPage < a + n) := fun hin ↦
      not_within hlimit (Nat.mul_mod_left _ _) he.1.2 (within_pages.2 hin)
    have hdest : ¬(d ≤ e.virtualPage ∧ e.virtualPage < d + n) := fun hin ↦ by
      rw [hfree _ hin] at hpte
      cases hpte
    rw [Agrees, hresult.pte, copyResult, if_neg hdest, if_neg hsrc]
    exact hpte
  · exact (hlocked2.keeps hk3 le_self_add).keeps hk4 le_self_add

/-! ## The call -/

section Views

variable {v : View} {pte : Pte}

theorem effectiveProtection_twice {protection : Prot} {flags flags' : PteFlags}
    (h : flags.cow = true → flags'.cow = true) :
    effectiveProtection (effectiveProtection protection flags) flags' =
      effectiveProtection protection flags' := by
  unfold effectiveProtection
  split_ifs <;> simp_all [Prot.readOnly]

theorem copied_ok (h : ViewOk v pte) (hshared : v.shared = false) :
    ViewOk v (copiedPte v.maxProt.writable pte) := by
  refine ⟨rfl, ?_, hshared.symm, fun hcow ↦ ⟨hshared, hcow⟩⟩
  rw [copiedPte, mappedPte, h.protection]
  exact effectiveProtection_twice fun hcow ↦ (h.cow hcow).2

theorem source_ok (h : ViewOk v pte) (hshared : v.shared = false) :
    ViewOk v (sourcePte v.maxProt.writable pte) := by
  have hcow : (pte.flags.update { cow := v.maxProt.writable }
      { shared := true, cow := !v.maxProt.writable }).cow = v.maxProt.writable := by
    cases hw : v.maxProt.writable <;> simp [PteFlags.update]
  refine ⟨?_, ?_, ?_, fun hc ↦ ⟨hshared, ?_⟩⟩
  · simp [sourcePte, revised, PteFlags.update, h.present]
  · rw [sourcePte, revised, h.protection]
    exact effectiveProtection_twice fun hc ↦ hcow.trans (h.cow hc).2
  · simp [sourcePte, revised, PteFlags.update, hshared]
  · exact hcow.symm.trans hc

end Views

variable {mapping v : Vma} {next : VmaSnapshot} {n : ℕ} {s : Sys} {b : BackingId}

/-- The mapping that `minimm_mapping_copy` makes. -/
def copyVma (c : Space) (mapping : Vma) (length address : ℕ) : Vma :=
  { mapping with
    start := address
    stop := address + length
    mappingCookie := c.nextMappingCookie }

/-- Pages `[a, a + n)` are those of a range. -/
structure Spans (v : Vma) (a n : ℕ) : Prop where
  start : v.start = a * pageSize
  stop : v.stop = a * pageSize + n * pageSize

theorem Spans.contains {p : ℕ} (h : Spans v a n) :
    v.contains (p * pageSize) = true ↔ a ≤ p ∧ p < a + n := by
  rw [contains_page, h.start, h.stop, within_pages]

theorem spans (h : v.Valid) : Spans v (v.start / pageSize) ((v.stop - v.start) / pageSize) := by
  have hlt := h.lt
  have hstart := Nat.div_mul_cancel (Nat.dvd_of_mod_eq_zero h.startAligned)
  have hlength := Nat.div_mul_cancel
    (Nat.dvd_sub (Nat.dvd_of_mod_eq_zero h.stopAligned) (Nat.dvd_of_mod_eq_zero h.startAligned))
  exact ⟨hstart.symm, by omega⟩

theorem Spans.free (h : c.Wf) (hnext : Inserted c.vmaSnapshot v next) (hv : Spans v d n) {p : ℕ}
    (hp : d ≤ p ∧ p < d + n) : c.pageTable.pte p = none := by
  have hhas := (h.free hnext).pte p
  have hin : Within v.start v.stop p := contains_page.1 (hv.contains.2 hp)
  rwa [swept_of_within hin, Option.bind_fun_none] at hhas

theorem Spans.disjoint (h : c.Wf) (hmapping : mapping ∈ c.vmaSnapshot.ranges)
    (hnext : Inserted c.vmaSnapshot v next) (hm : Spans mapping a n) (hv : Spans v d n) {p : ℕ}
    (hp : a ≤ p ∧ p < a + n) : ¬(d ≤ p ∧ p < d + n) := by
  intro hdest
  have hview := h.snapshot.ordered.viewAt_iff.2 ⟨mapping, hmapping, hm.contains.2 hp, rfl⟩
  rw [hnext.free _ (hv.contains.2 hdest)] at hview
  cases hview

theorem Wf.copied (h : c.Wf) (hmapping : mapping ∈ c.vmaSnapshot.ranges)
    (hshared : mapping.shared = false) (hm : Spans mapping a n)
    (hnext : Inserted c.vmaSnapshot (c.copyVma mapping (n * pageSize) (d * pageSize)) next)
    (ht : t.Has (copyResult mapping.maxProt.writable a d n c.pageTable.pte)) :
    Fits { c with vmaSnapshot := next } t.pte := by
  have hv : Spans (c.copyVma mapping (n * pageSize) (d * pageSize)) d n := ⟨rfl, rfl⟩
  have hview : ∀ {p pte}, a ≤ p ∧ p < a + n → c.pageTable.pte p = some pte →
      viewAt c.vmaSnapshot.ranges (p * pageSize) = some (mapping.view (p * pageSize)) ∧
        ViewOk (mapping.view (p * pageSize)) pte := by
    intro p pte hp hpte
    obtain ⟨x, hx, hok⟩ := h.view hpte
    have hx' := h.snapshot.ordered.viewAt_iff.2 ⟨mapping, hmapping, hm.contains.2 hp, rfl⟩
    cases hx.symm.trans hx'
    exact ⟨hx', hok⟩
  refine (fits_iff (c := { c with vmaSnapshot := next }) hnext.good).2 fun p pte hp ↦ ?_
  rw [ht.pte, copyResult] at hp
  rw [hnext.view]
  simp only [hv.contains]
  split_ifs at hp ⊢ with hdest hsrc
  · obtain ⟨old, hold, rfl⟩ := Option.map_eq_some_iff.1 hp
    have hok := (hview (by omega) hold).2
    exact ⟨_, rfl, (copied_ok hok hshared).congr rfl rfl rfl⟩
  · obtain ⟨old, hold, rfl⟩ := Option.map_eq_some_iff.1 hp
    obtain ⟨hx, hok⟩ := hview hsrc hold
    exact ⟨_, hx, source_ok hok hshared⟩
  · exact h.view hp

/-- What `minimm_mapping_copy` leaves of a space. -/
structure Copied (mapping : Vma) (length destination : ℕ) (b : BackingId) (c c' : Space) :
    Prop where
  snapshot : Inserted c.vmaSnapshot (c.copyVma mapping length destination) c'.vmaSnapshot
  entries : ∀ p, c'.pageTable.pte p = copyResult mapping.maxProt.writable
    (mapping.start / pageSize) (destination / pageSize) (length / pageSize) c.pageTable.pte p
  bindings : c'.bindings = ⟨b, c.nextMappingCookie⟩ :: c.bindings
  rest : { c with
    pageTable := c'.pageTable, vmaSnapshot := c'.vmaSnapshot, bindings := c'.bindings
    nextMappingCookie := c.nextMappingCookie + 1 } = c'

/-- A call has failed: at most the nodes of the page table are others. -/
structure Unchanged (c c' : Space) : Prop where
  entries : ∀ p, c'.pageTable.pte p = c.pageTable.pte p
  rest : c.setTable c'.pageTable = c'

theorem Unchanged.refl (c : Space) : Unchanged c c := ⟨fun _ ↦ rfl, rfl⟩

theorem Sound.same (h : c.Wf) (hb : c.Bound s) (ht : t.Has c.pageTable.pte)
    (htlb : Tlb.All (Agrees t) i s) (hlocked : t.LockedResident μ s bad) :
    Sound μ i bad (c.setTable t) s := by
  refine ⟨⟨h.snapshot, ht.good, h.cookies, h.nextCookie, h.base, fun p pte hp ↦ ?_⟩, hb, htlb,
    hlocked⟩
  exact h.entry p pte (by rw [← ht.pte]; exact hp)

theorem placeCopy_placement (h : c.vmaSnapshot.Good) (hint length : ℕ) (vmaAt : ℕ → Vma) :
    (if hint ≠ addressAuto then c.placeNear hint length vmaAt
      else c.placeInGap c.mmapBase length vmaAt).Mallocs (fun _ ↦ True)
      (Placement fun address t ↦ Inserted c.vmaSnapshot (vmaAt address) t) := by
  split_ifs
  · exact placeNear_placement h _ _ _
  · exact placeInGap_placement h _ _ _

theorem mappingCopyFrom_spec (hint : ℕ) {binding : Binding}
    (hmapping : mapping ∈ c.vmaSnapshot.ranges) (hm : Spans mapping a n)
    (hshared : mapping.shared = false)
    (hbinding : Binding.find mapping.mappingCookie c.bindings = some binding)
    {p : Code ((Status × ℕ × List Binding) × Space)}
    (hp : mappingCopyFrom i c (a * pageSize) (n * pageSize) hint mapping binding.backing = p) :
    Triple μ 0 ({lock (.space i)} + c.sites) (Sound μ i ∅ c) p
      (fun r ↦ {lock (.space i)} + r.2.sites + bindingSites r.1.2.2)
      fun r s ↦ Sound μ i ∅ r.2 s ∧
        (r.1.1 = .ok ∧ Copied mapping (n * pageSize) r.1.2.1 binding.backing c r.2 ∨
          r.1.1 ≠ .ok ∧ Unchanged c r.2) := by
  intro s x w hK hat h
  have hfail : ∀ {w : World} {status : Status}, status ≠ .ok →
      At μ s x ({lock (.space i)} + c.sites) w → Sound μ i ∅ c w.sys →
      At μ s x ({lock (.space i)} + c.sites + bindingSites []) w ∧ (Sound μ i ∅ c w.sys ∧
        (status = .ok ∧ Copied mapping (n * pageSize) addressAuto binding.backing c c ∨
          status ≠ .ok ∧ Unchanged c c)) :=
    fun hbad hat h ↦ ⟨hat.congr (by simp), h, .inr ⟨hbad, .refl c⟩⟩
  rw [← hp]
  unfold mappingCopyFrom
  generalize hpages : collectCopyPages c.pageTable (a * pageSize) (a * pageSize + n * pageSize) =
    collect
  refine (collectCopyPages_spec h.wf.has hpages).aside hat trivial ?_
  rintro ⟨status, pages⟩ w1 hat1 hk1 hcollect
  have h1 := h.keeps_sites hk1 le_rfl
  dsimp only at hcollect ⊢
  rcases hcollect with ⟨rfl, l, rfl, hl⟩ | hbad
  swap
  · rw [if_pos hbad]
    exact hfail hbad (hat1.congr (zero_add _)) h1
  rw [if_neg (by simp)]
  refine (placeCopy_placement h.wf.snapshot hint (n * pageSize)
    (c.copyVma mapping (n * pageSize))).triple.seq hat1 rfl zero_le trivial ?_
  rintro ⟨status, destination, next⟩ w2 hat2 hk2 (⟨-, next, rfl, hnext⟩ | ⟨hbad, rfl⟩)
  swap
  · exact hfail hbad (hat2.congr (zero_add _)) (h1.keeps_sites hk2 le_rfl)
  have h2 := h1.keeps_sites hk2 le_rfl
  refine bindingCreate_spec.seq hat2 rfl zero_le trivial fun status w3 hat3 hk3 _ ↦ ?_
  have h3 := h2.keeps_sites hk3 le_rfl
  rw [zero_add] at hat3
  by_cases hok : status ≠ .ok
  · rw [if_pos hok]
    exact hfail hok hat3 h3
  rw [if_neg hok]
  have hback : backing binding.backing ∈ c.sites :=
    Inv.binding_mem (List.mem_of_find?_eq_some hbinding)
  refine retainBacking_spec.seq hat3 (zero_add _).symm ?_ trivial fun _ w4 hat4 hk4 _ ↦ ?_
  · exact (Multiset.singleton_le.2 hback).trans ((le_add_left le_rfl).trans le_self_add)
  have h4 := h3.keeps_sites hk4 le_rfl
  obtain ⟨d, rfl⟩ : ∃ d, destination = d * pageSize :=
    ⟨_, (Nat.div_mul_cancel (Nat.dvd_of_mod_eq_zero hnext.valid.startAligned)).symm⟩
  have hv : Spans (c.copyVma mapping (n * pageSize) (d * pageSize)) d n := ⟨rfl, rfl⟩
  have hlimit := (h.wf.snapshot.ordered.valid mapping hmapping).limit
  rw [hm.stop] at hlimit
  refine (copyEntries_spec h.wf.has hl (fun p hp ↦ hv.free h.wf hnext hp)
    (fun p hp ↦ hm.disjoint h.wf hmapping hnext hv hp) hlimit).seq
    (F := bindingSites c.bindings + {backing binding.backing}) hat4 ?_ zero_le
      ⟨h4.tlb, h4.locked⟩ ?_
  · rw [sites_eq]
    ac_rfl
  rintro ⟨status, t⟩ w5 hat5 hk5 ⟨htlb, hlocked, hcopied⟩
  dsimp only at hat5 htlb hlocked hcopied ⊢
  rcases hcopied with ⟨rfl, hhas⟩ | ⟨hbad, hhas⟩
  swap
  · rw [if_pos hbad]
    refine ⟨hat5.congr ?_, ?_, .inr ⟨hbad, hhas.pte, rfl⟩⟩
    · rw [sites_eq]
      simp only [setTable, bindingSites_cons, bindingSites_nil, add_zero]
      ac_rfl
    · exact .same h.wf (h4.bound.keeps hk5) hhas htlb hlocked
  refine (publishLocked_spec next).aside hat5 trivial ?_
  rintro _ w6 hat6 hk6 rfl
  have hle : {lock (.space i)} + t.sites ≤ {lock (.space i)} + t.sites +
      (bindingSites c.bindings + {backing binding.backing}) + x := le_self_add.trans le_self_add
  have hbound := (h4.bound.keeps hk5).keeps hk6
  have hinfo : BackingIs binding.backing (w6.sys.backingInfo binding.backing) w6.sys ∧
      (w6.sys.backingInfo binding.backing).kind.shared = mapping.shared := by
    obtain ⟨-, β, hβ, hlt, hkind⟩ := hbound mapping hmapping
    cases hβ.symm.trans hbinding
    exact ⟨⟨hlt, rfl⟩, hkind⟩
  refine ⟨hat6.congr ?_, ⟨⟨hnext.good, hhas.good, h.wf.cookies_cons _, Nat.succ_ne_zero _,
    h.wf.base, ?_⟩, ?_, ?_, ?_⟩, .inl ⟨rfl, hnext, fun p ↦ ?_, rfl, rfl⟩⟩
  · rw [sites_eq]
    simp only [setTable, bindingSites_cons, bindingSites_nil, add_zero, zero_add]
    ac_rfl
  · exact h.wf.copied hmapping hshared hm hnext hhas
  · exact (bound_iff hnext.good).2 fun a x hx ↦
      viewBound_cons (v := c.copyVma mapping (n * pageSize) (d * pageSize)) h.wf hbound hinfo.1
        hinfo.2 rfl hnext.laid hx
  · exact htlb.keeps hk6 (Multiset.mem_of_le hle (by simp))
  · exact hlocked.keeps hk6 ((le_add_left le_rfl).trans hle)
  · have hcancel : ∀ k, k * pageSize / pageSize = k := fun k ↦ Nat.mul_div_cancel k (by decide)
    rw [hm.start, hcancel, hcancel, hcancel]
    exact hhas.pte p

theorem mappingCopyLocked_spec {source length : ℕ} (hint : ℕ) (hsource : source % pageSize = 0)
    (hlength : length % pageSize = 0) :
    Triple μ 0 ({lock (.space i)} + c.sites) (Sound μ i ∅ c)
      (mappingCopyLocked i source length hint c)
      (fun r ↦ {lock (.space i)} + r.2.sites + bindingSites r.1.2.2)
      fun r s ↦ Sound μ i ∅ r.2 s ∧
        (r.1.1 = .ok ∧ (∃ mapping β, c.vmaSnapshot.lookup source = some mapping ∧
            mapping.start = source ∧ mapping.stop = source + length ∧ mapping.shared = false ∧
            Binding.find mapping.mappingCookie c.bindings = some β ∧
            Copied mapping length r.1.2.1 β.backing c r.2) ∨
          r.1.1 ≠ .ok ∧ Unchanged c r.2) := by
  obtain ⟨a, rfl⟩ : ∃ a, source = a * pageSize :=
    ⟨_, (Nat.div_mul_cancel (Nat.dvd_of_mod_eq_zero hsource)).symm⟩
  obtain ⟨n, rfl⟩ : ∃ n, length = n * pageSize :=
    ⟨_, (Nat.div_mul_cancel (Nat.dvd_of_mod_eq_zero hlength)).symm⟩
  intro s x w hK hat h
  have hfail : ∀ {status : Status} {p : Prop}, status ≠ .ok →
      At μ s x ({lock (.space i)} + c.sites + bindingSites []) w ∧ (Sound μ i ∅ c w.sys ∧
        (status = .ok ∧ p ∨ status ≠ .ok ∧ Unchanged c c)) :=
    fun hbad ↦ ⟨hat.congr (by simp), h, .inr ⟨hbad, .refl c⟩⟩
  unfold mappingCopyLocked
  by_cases hmax : c.nextMappingCookie = sizeMax
  · rw [if_pos hmax]
    exact hfail nofun
  rw [if_neg hmax]
  cases hlookup : c.vmaSnapshot.lookup (a * pageSize) with
  | none => exact hfail nofun
  | some mapping =>
    dsimp only
    split_ifs with hbad
    · exact hfail nofun
    rw [not_or, not_or, not_not, not_not, Bool.not_eq_true] at hbad
    obtain ⟨hstart, hstop, hshared⟩ := hbad
    split
    · exact hfail nofun
    next binding hbinding =>
      have hmapping := ((lookup_eq_some h.wf.snapshot).1 hlookup).1
      have hm : Spans mapping a n := ⟨hstart, hstop⟩
      generalize hcopy : mappingCopyFrom i c (a * pageSize) (n * pageSize) hint mapping
        binding.backing = copy
      refine (mappingCopyFrom_spec hint hmapping hm hshared hbinding hcopy).tail (F := 0) hat
        (add_zero _).symm zero_le h fun r w1 hat1 _ ⟨hsound, hres⟩ ↦ ?_
      refine ⟨hat1.congr (add_zero _), hsound, hres.imp_left fun hr ↦ ⟨hr.1, ?_⟩⟩
      exact ⟨mapping, binding, rfl, hstart, hstop, hshared, hbinding, hr.2⟩

theorem mappingAlignLength_page {length aligned : ℕ}
    (h : mappingAlignLength length = some aligned) : aligned % pageSize = 0 := by
  unfold mappingAlignLength at h
  dsimp only at h
  split_ifs at h
  cases h
  exact Nat.mul_mod_left _ _

theorem mappingCopy_spec (source length hint : ℕ) :
    Spends μ 0 0 (fun s ↦ i < s.nextSpace) (mappingCopy i source length hint) := by
  unfold mappingCopy
  split
  · exact .pure rfl fun _ _ ↦ trivial
  next aligned haligned =>
  refine .ite (fun _ ↦ .pure rfl fun _ _ ↦ trivial) fun hvalid ↦ ?_
  have hsource : source % pageSize = 0 := by
    simp only [mappingRangeIsValid, not_or, Bool.not_eq_false, Bool.and_eq_true,
      decide_eq_true_eq] at hvalid
    exact hvalid.1.1.1.2
  exact withLock_destroy_plain (fun r : Status × ℕ × List Binding ↦ r.2.2) (fun r ↦ (r.1, r.2.1))
    (.busy, addressAuto, []) rfl fun c _ ↦
      (mappingCopyLocked_spec hint hsource (mappingAlignLength_page haligned)).post fun _ _ h ↦ h.1

end Space

end MiniMM
