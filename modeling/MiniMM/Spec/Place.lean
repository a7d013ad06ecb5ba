import MiniMM.Spec.Fault
import MiniMM.Binding.Edits

/-!
# Changing the mappings of a space

What a snapshot shows at an address, sweeps over the entries of an interval, and how both together
keep a space in order.
-/

namespace MiniMM

open Handle Vma

/-! ## What a snapshot shows -/

namespace VmaSnapshot

variable {s : VmaSnapshot} {a : ℕ} {v : Vma} {x : View}

theorem view_of_lookup (h : s.Good) (hv : s.lookup a = some v) :
    viewAt s.ranges a = some (v.view a) := by
  obtain ⟨hmem, hle, hlt⟩ := (lookup_eq_some h).1 hv
  exact h.ordered.viewAt_iff.2 ⟨v, hmem, contains_iff.2 ⟨hle, hlt⟩, rfl⟩

theorem lookup_of_view (h : s.Good) (hx : viewAt s.ranges a = some x) :
    ∃ v, s.lookup a = some v ∧ v.view a = x := by
  obtain ⟨v, hv, hcontains, hview⟩ := h.ordered.viewAt_iff.1 hx
  exact ⟨v, (lookup_eq_some h).2 ⟨hv, contains_iff.1 hcontains⟩, hview⟩

end VmaSnapshot

theorem Code.Mallocs.triple {μ : Mode} {α : Type} {p : Code α} {Q : α → Prop}
    (h : Code.Mallocs (fun _ ↦ True) p Q) :
    Triple μ 0 0 (fun _ ↦ True) p (fun _ ↦ 0) fun r _ ↦ Q r := by
  induction p with
  | pure a => exact .pure rfl fun _ _ ↦ h
  | op o k ih =>
    obtain ⟨ho, hk⟩ := h
    cases o <;> try cases ho
    intro s x w hK hat _
    refine malloc_spec.seq (f := k) (F := 0) hat rfl zero_le trivial fun b w1 hat1 _ _ ↦ ?_
    exact ih b (hk b trivial) s x w1 hK (hat1.congr rfl) trivial

/-! ## Entries and what is shown -/

/-- An entry agrees with what is shown of its page. -/
structure ViewOk (x : View) (pte : Pte) : Prop where
  present : pte.flags.present = true
  protection : pte.protection = PageTable.effectiveProtection x.prot pte.flags
  shared : pte.flags.shared = x.shared
  cow : pte.flags.cow = true → x.shared = false ∧ x.maxProt.writable = true

theorem PteOk.view {v : Vma} {pte : Pte} (h : PteOk v pte) (a : ℕ) : ViewOk (v.view a) pte :=
  ⟨h.present, h.protection, h.shared, h.cow⟩

theorem ViewOk.vma {v : Vma} {pte : Pte} {a : ℕ} (h : ViewOk (v.view a) pte) : PteOk v pte :=
  ⟨h.present, h.protection, h.shared, h.cow⟩

theorem ViewOk.congr {x y : View} {pte : Pte} (h : ViewOk x pte) (hprot : y.prot = x.prot)
    (hmax : y.maxProt = x.maxProt) (hshared : y.shared = x.shared) : ViewOk y pte :=
  ⟨h.present, by rw [hprot]; exact h.protection, by rw [hshared]; exact h.shared,
    by rw [hshared, hmax]; exact h.cow⟩

namespace Space

variable {μ : Mode} {K X x : Multiset Handle} {i : SpaceId} {bad : Set ℕ} {c c' : Space}
  {s s' : Sys} {g : ℕ → Option Pte} {t t' : PageTable} {start stop : ℕ}

theorem fits_iff (h : c.vmaSnapshot.Good) : c.Fits g ↔ ∀ p pte, g p = some pte →
    ∃ x, viewAt c.vmaSnapshot.ranges (p * pageSize) = some x ∧ ViewOk x pte := by
  refine forall_congr' fun p ↦ forall_congr' fun pte ↦ imp_congr_right fun _ ↦ ?_
  constructor
  · rintro ⟨v, hv, hok⟩
    exact ⟨_, VmaSnapshot.view_of_lookup h hv, hok.view _⟩
  · rintro ⟨x, hx, hok⟩
    obtain ⟨v, hv, rfl⟩ := VmaSnapshot.lookup_of_view h hx
    exact ⟨v, hv, hok.vma⟩

theorem Wf.view (h : c.Wf) {p : ℕ} {pte : Pte} (hp : c.pageTable.pte p = some pte) :
    ∃ x, viewAt c.vmaSnapshot.ranges (p * pageSize) = some x ∧ ViewOk x pte :=
  (fits_iff h.snapshot).1 h.entry p pte hp

/-- What is shown is bound. -/
def ViewBound (s : Sys) (bindings : List Binding) (x : View) : Prop :=
  x.mappingCookie ≠ 0 ∧ ∃ b, Binding.find x.mappingCookie bindings = some b ∧
    b.backing < s.nextBacking ∧ (s.backingInfo b.backing).kind.shared = x.shared

theorem bound_iff (h : c.vmaSnapshot.Good) : c.Bound s ↔
    ∀ a x, viewAt c.vmaSnapshot.ranges a = some x → ViewBound s c.bindings x := by
  constructor
  · intro hb a x hx
    obtain ⟨v, hv, -, rfl⟩ := h.ordered.viewAt_iff.1 hx
    exact hb v hv
  · intro hview v hv
    have hstart := contains_iff.2 ⟨le_refl v.start, (h.ordered.valid v hv).lt⟩
    exact hview v.start _ (h.ordered.viewAt_iff.2 ⟨v, hv, hstart, rfl⟩)

end Space

/-! ## Sweeps -/

namespace PageTable

variable {μ : Mode} {K X : Multiset Handle} {t : PageTable} {g : ℕ → Option Pte}
  {J : PageTable → Sys → Prop} {body : PageTable → ℕ → Code (Status × PageTable)} {start stop : ℕ}

/-- A page of the interval `[start, stop)`. -/
def Within (start stop p : ℕ) : Prop := start ≤ p * pageSize ∧ p * pageSize < stop

instance (start stop p : ℕ) : Decidable (Within start stop p) := inferInstanceAs (Decidable (_ ∧ _))

/-- The entries after a sweep over an interval that makes `f p pte` of the entry `pte` of `p`. -/
def swept (start stop : ℕ) (f : ℕ → Pte → Option Pte) (g : ℕ → Option Pte) (p : ℕ) : Option Pte :=
  if Within start stop p then (g p).bind (f p) else g p

theorem swept_of_within {f : ℕ → Pte → Option Pte} {p : ℕ} (h : Within start stop p) :
    swept start stop f g p = (g p).bind (f p) := if_pos h

theorem swept_of_not {f : ℕ → Pte → Option Pte} {p : ℕ} (h : ¬Within start stop p) :
    swept start stop f g p = g p := if_neg h

/-- A loop over the entries of an interval that does not fail: each entry is replaced or removed by
itself. -/
theorem sweep_spec (f : ℕ → Pte → Option Pte) (ht : t.Has g) (hle : start ≤ stop)
    (hstop : stop ≤ userAddressLimit) (hstart : start % pageSize = 0)
      (haligned : stop % pageSize = 0)
    (hbody : ∀ k t g pte, Within start stop k → t.Has g → g k = some pte →
      Triple μ K (X + t.sites) (J t) (body t (k * pageSize)) (fun r ↦ X + r.2.sites)
        fun r s ↦ r.1 = .ok ∧ r.2.Has (Function.update g k (f k pte)) ∧ J r.2 s) :
    Triple μ K (X + t.sites) (J t) (t.walkRange start stop body) (fun r ↦ X + r.2.sites)
      fun r s ↦ r.1 = .ok ∧ r.2.Has (swept start stop f g) ∧ J r.2 s := by
  obtain ⟨a, rfl⟩ : ∃ a, start = a * pageSize :=
    ⟨start / pageSize, (Nat.div_mul_cancel (Nat.dvd_of_mod_eq_zero hstart)).symm⟩
  obtain ⟨b, rfl⟩ : ∃ b, stop = b * pageSize :=
    ⟨stop / pageSize, (Nat.div_mul_cancel (Nat.dvd_of_mod_eq_zero haligned)).symm⟩
  have hab : a ≤ b := Nat.le_of_mul_le_mul_right hle (by decide)
  have hin : ∀ {k}, Within (a * pageSize) (b * pageSize) k ↔ a ≤ k ∧ k < b := by
    intro k
    exact and_congr (Nat.mul_le_mul_right_iff (by decide)) (Nat.mul_lt_mul_right (by decide))
  -- below `k` the entries have been treated
  set I : ℕ → PageTable → Sys → Prop := fun k t s ↦
    t.Has (swept (a * pageSize) (k * pageSize) f g) ∧ J t s with hI
  have hstep : ∀ k, a ≤ k → ∀ p, swept (a * pageSize) ((k + 1) * pageSize) f g p =
      if p = k then (g k).bind (f k) else swept (a * pageSize) (k * pageSize) f g p := by
    intro k hak p
    have hw : ∀ {m}, Within (a * pageSize) (m * pageSize) p ↔ a ≤ p ∧ p < m := fun {m} ↦
      and_congr (Nat.mul_le_mul_right_iff (by decide)) (Nat.mul_lt_mul_right (by decide))
    simp only [swept, hw]
    split_ifs <;> first | rfl | omega | (subst_vars; rfl)
  have hself : ∀ k, swept (a * pageSize) (k * pageSize) f g k = g k := by
    intro k
    exact swept_of_not fun h ↦ lt_irrefl _ h.2
  have hwalk : Triple μ K (X + t.sites) (I a t)
      (t.walkRange (a * pageSize) (b * pageSize) body) (fun r ↦ X + r.2.sites)
      (Walked I (fun _ _ _ ↦ False) b) := by
    refine walkRange_spec hab hstop (fun k t s h ↦ h.1.good) (fun k t s hak hkb hnone h ↦ ?_)
      fun k t pte hak hkb hpte ↦ ?_
    · refine ⟨h.1.congr fun p ↦ ?_, h.2⟩
      rw [hstep k hak]
      split_ifs with hp
      · subst hp
        rw [h.1.pte, hself] at hnone
        rw [hself, hnone]
        rfl
      · rfl
    · intro s x w hK hat h
      have hgk : swept (a * pageSize) (k * pageSize) f g k = some pte := by rw [← h.1.pte, hpte]
      refine (hbody k t _ pte (hin.2 ⟨hak, hkb⟩) h.1 hgk).tail (F := 0) hat (add_zero _).symm
        (by simpa using hK) h.2 fun r w1 hat1 _ h1 ↦ ⟨hat1.congr (add_zero _),
          .inl ⟨h1.1, ?_, h1.2.2⟩⟩
      refine h1.2.1.congr fun p ↦ ?_
      rw [hstep k hak, ← hself k, hgk]
      by_cases hp : p = k
      · subst hp
        rw [Function.update_self, if_pos rfl]
        rfl
      · rw [Function.update_of_ne hp, if_neg hp]
  refine hwalk.conseq (fun s h ↦ ⟨ht.congr fun p ↦ ?_, h⟩) (fun _ ↦ rfl) ?_
  · exact (swept_of_not fun h ↦ absurd (h.1.trans_lt h.2) (lt_irrefl _)).symm
  · rintro r s (⟨hok, h⟩ | ⟨-, hfalse⟩)
    · exact ⟨hok, h⟩
    · exact hfalse.elim

end PageTable

/-! ## Unmapping -/

namespace Binding

theorem find_prune {bindings : List Binding} {snapshot : VmaSnapshot} {k : ℕ}
    (h : snapshot.containsCookie k = true) :
    find k (prune bindings snapshot).1 = find k bindings := by
  induction bindings with
  | nil => rfl
  | cons b rest ih =>
    by_cases hk : b.cookie = k
    · rw [prune, List.filter_cons_of_pos (by rw [hk]; exact h)]
      simp [find, hk]
    · have hskip : find k (b :: rest) = find k rest := by simp [find, hk]
      rw [hskip, ← ih]
      simp only [prune]
      by_cases hb : snapshot.containsCookie b.cookie = true
      · rw [List.filter_cons_of_pos (by exact hb)]
        simp [find, hk]
      · rw [List.filter_cons_of_neg (by exact hb)]

theorem mem_prune {bindings : List Binding} {snapshot : VmaSnapshot} {b : Binding}
    (h : b ∈ (prune bindings snapshot).1) : b ∈ bindings := (List.mem_filter.1 h).1

end Binding

namespace Space

open PageTable

variable {μ : Mode} {i : SpaceId} {bad : Set ℕ} {c : Space} {s : Sys}
  {g : ℕ → Option Pte} {t : PageTable} {start stop : ℕ}

theorem not_within (hstop : stop ≤ userAddressLimit) (hstart : start % pageSize = 0) {p : ℕ}
    (h : start < stop → stop ≤ userAddressLimit →
      ¬(start / pageSize ≤ p ∧ p < (stop + pageSize - 1) / pageSize)) :
    ¬Within start stop p := by
  rintro ⟨hle, hlt⟩
  refine h (hle.trans_lt hlt) hstop ?_
  simp only [pageSize] at *
  omega

theorem unmapPagesLocked_spec (ht : t.Has g) (hle : start ≤ stop) (hstop : stop ≤ userAddressLimit)
    (hstart : start % pageSize = 0) (haligned : stop % pageSize = 0) :
    Triple μ 0 ({lock (.space i)} + t.sites)
      (fun s ↦ Tlb.All (Agrees t) i s ∧ t.LockedResident μ s bad)
      (unmapPagesLocked i t start stop) (fun t' ↦ {lock (.space i)} + t'.sites)
      fun t' s ↦ t'.Has (swept start stop (fun _ _ ↦ none) g) ∧ Tlb.All (Agrees t') i s ∧
        t'.LockedResident μ s bad := by
  intro s x w hK hat ⟨htlb, hlocked⟩
  refine (Tlb.invalidateRange_spec start stop).seq hat rfl zero_le htlb fun _ w1 hat1 hk1 htlb1 ↦ ?_
  have hsweep : Triple μ 0 ({lock (.space i)} + t.sites)
      (fun s ↦ Tlb.All (fun e ↦ Agrees t e ∧ ¬Within start stop e.virtualPage) i s ∧
        t.LockedResident μ s bad) (t.walkRange start stop (ignoring PageTable.unmap))
      (fun r ↦ {lock (.space i)} + r.2.sites)
      fun r s ↦ r.1 = .ok ∧ r.2.Has (swept start stop (fun _ _ ↦ none) g) ∧
        (Tlb.All (fun e ↦ Agrees r.2 e ∧ ¬Within start stop e.virtualPage) i s ∧
          r.2.LockedResident μ s bad) := by
    refine sweep_spec (J := fun t s ↦ Tlb.All (fun e ↦ Agrees t e ∧
      ¬Within start stop e.virtualPage) i s ∧ t.LockedResident μ s bad) (fun _ _ ↦ none)
      ht hle hstop hstart haligned fun k t g pte hin hg hk ↦ ?_
    intro s x w hK hat ⟨htlb, hlocked⟩
    refine (unmap_at hg (hin.2.trans_le hstop)).seq hat (add_comm _ _) zero_le hlocked
      fun r w1 hat1 hk1 ⟨hlocked1, hhas1⟩ ↦ ?_
    refine ⟨hat1.congr (add_comm _ _), rfl, hhas1, ?_, hlocked1⟩
    refine (htlb.keeps hk1 (by simp)).mono fun e he ↦ ⟨?_, he.2⟩
    have hne : e.virtualPage ≠ k := fun heq ↦ he.2 (heq ▸ hin)
    rw [Agrees, hhas1.pte, Function.update_of_ne hne, ← hg.pte]
    exact he.1
  refine hsweep.first hat1 ⟨?_, ?_⟩ ?_
  · exact htlb1.mono fun e he ↦ ⟨he.1, not_within hstop hstart he.2⟩
  · exact hlocked.keeps hk1 le_self_add
  · rintro ⟨status, t'⟩ w2 hat2 - ⟨-, hhas, htlb2, hlocked2⟩
    exact ⟨hat2.congr (add_zero _), hhas, htlb2.mono fun e he ↦ he.1, hlocked2⟩

end Space

end MiniMM
