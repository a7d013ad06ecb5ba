import MiniMM.Spec.Backing

/-!
# The entries of a page table

The functions of `page_table.c` and the loops over intervals of pages, in terms of the entry of each
page.
-/

namespace MiniMM

open Handle

namespace PageTable

variable {μ ν : Mode} {K X : Multiset Handle} {t t' : PageTable} {g : ℕ → Option Pte} {address : ℕ}
  {frame : FrameId} {protection : Prot} {flags set clear : PteFlags} {bad : Set ℕ} {s : Sys}
  {pte : Pte}

/-- A table in order with the entries `g`. -/
structure Has (t : PageTable) (g : ℕ → Option Pte) : Prop where
  good : ∃ m, t.Represents m
  pte : ∀ p, t.pte p = g p

namespace Has

theorem of_represents {m : PageMap} (h : t.Represents m) : t.Has t.pte := ⟨⟨m, h⟩, fun _ ↦ rfl⟩

theorem congr {g' : ℕ → Option Pte} (h : t.Has g) (hg : ∀ p, g p = g' p) : t.Has g' :=
  ⟨h.good, fun p ↦ (h.pte p).trans (hg p)⟩

theorem lookup (h : t.Has g) (address : ℕ) : t.lookup address = g (address / pageSize) := by
  obtain ⟨m, hm⟩ := h.good
  rw [hm.lookup_pte, h.pte]

theorem lookup_page (h : t.Has g) (k : ℕ) : t.lookup (k * pageSize) = g k := by
  rw [h.lookup, Nat.mul_div_cancel _ (by decide)]

theorem user (h : t.Has g) {p : ℕ} (hp : g p = some pte) : p * pageSize < userAddressLimit := by
  obtain ⟨m, hm⟩ := h.good
  refine hm.user p (Finmap.mem_of_lookup_eq_some (b := pte) ?_)
  rw [← hm.pte, h.pte, hp]

theorem insert {m : PageMap} (h : t.Has g) (hm : t.Represents m) {p : ℕ}
    (h' : t'.Represents (m.insert p pte)) : t'.Has (Function.update g p (some pte)) := by
  have hc := hm.insert h'
  refine ⟨⟨_, h'⟩, fun q ↦ ?_⟩
  by_cases hq : q = p
  · subst hq
    rw [hc.self, Function.update_self]
  · rw [hc.others q hq, h.pte, Function.update_of_ne hq]

theorem remove {m : PageMap} (h : t.Has g) (hm : t.Represents m) {p : ℕ}
    (h' : t'.Represents (m.erase p)) : t'.Has (Function.update g p none) := by
  have hc := hm.remove h'
  refine ⟨⟨_, h'⟩, fun q ↦ ?_⟩
  by_cases hq : q = p
  · subst hq
    rw [hc.self, Function.update_self]
  · rw [hc.others q hq, h.pte, Function.update_of_ne hq]

end Has

/-! ## Single entries -/

theorem pageAddressIsValid_page {k : ℕ} (h : k * pageSize < userAddressLimit) :
    pageAddressIsValid (k * pageSize) = true :=
  pageAddressIsValid_iff.2 ⟨h, Nat.mul_mod_left _ _⟩

theorem updateIsValid_page {k : ℕ} (h : k * pageSize < userAddressLimit)
    (hset : set.present = false) (hclear : clear.present = false)
    (hmeets : set.meets clear = false) : updateIsValid (k * pageSize) set clear = true := by
  simp [updateIsValid, pageAddressIsValid_page h, hset, hclear, hmeets]

/-- What `minimm_page_table_map` leaves: the new entry, or the table as it was. -/
def Mapped (g : ℕ → Option Pte) (address : ℕ) (frame : FrameId) (protection : Prot)
    (flags : PteFlags) (r : Status × PageTable) : Prop :=
  r.1 = .ok ∧ address < userAddressLimit ∧ address % pageSize = 0 ∧ g (address / pageSize) = none ∧
      r.2.Has (Function.update g (address / pageSize) (some (mappedPte frame protection flags))) ∨
    r.1 ≠ .ok ∧ r.2.Has g

theorem map_at (bad : Set ℕ) (h : t.Has g) {K : Multiset Handle} (href : ref frame ∈ K + t.sites)
    (hpin : ν.prompt = true → flags.locked = true → pin frame ∈ t.sites) :
    Triple μ K t.sites
      (fun s ↦ LockedResident ν s t bad ∧
        (ν.prompt = true → flags.locked = true → s.store.resident frame = true))
      (t.map address frame protection flags) (fun r ↦ r.2.sites)
      fun r s ↦ LockedResident ν s r.2 bad ∧ Mapped g address frame protection flags r := by
  obtain ⟨m, hm⟩ := h.good
  refine (map_spec hm href hpin).returns ((map_follows hm _ _ _ _).returns.mono ?_)
  rintro r (⟨hr, hrep⟩ | ⟨-, -, hr, hrep, -⟩)
  · simp only [Update.perform] at hr hrep
    split_ifs at hr hrep with hvalid hmem
    · exact .inr ⟨by simp [hr], ⟨m, hrep⟩, fun p ↦ by rw [hrep.pte, ← hm.pte, h.pte]⟩
    · exact .inr ⟨by simp [hr], ⟨m, hrep⟩, fun p ↦ by rw [hrep.pte, ← hm.pte, h.pte]⟩
    · rw [Bool.not_eq_false, pageAddressIsValid_iff] at hvalid
      refine .inl ⟨hr, hvalid.1, hvalid.2, ?_, h.insert hm hrep⟩
      rw [← h.pte, hm.pte, Finmap.lookup_eq_none.2 hmem]
  · exact .inr ⟨by rw [hr]; decide, ⟨m, hrep⟩, fun p ↦ by rw [hrep.pte, ← hm.pte, h.pte]⟩

theorem unmap_at (h : t.Has g) {k : ℕ} (hk : k * pageSize < userAddressLimit) :
    Triple μ 0 t.sites (fun s ↦ LockedResident μ s t bad) (t.unmap (k * pageSize))
      (fun r ↦ r.2.sites)
      fun r s ↦ LockedResident μ s r.2 bad ∧ r.2.Has (Function.update g k none) := by
  obtain ⟨m, hm⟩ := h.good
  refine (unmap_spec hm).returns ((unmap_follows (fun _ ↦ True) hm _).mono ?_)
  have hpage : k * pageSize / pageSize = k := Nat.mul_div_cancel _ (by decide)
  rintro r (⟨-, hrep⟩ | ⟨hmap, -⟩)
  · simp only [Update.perform, pageAddressIsValid_page hk, hpage, Bool.true_eq_false,
      if_false] at hrep
    split_ifs at hrep with hmem
    · exact h.remove hm hrep
    · refine ⟨⟨m, hrep⟩, fun p ↦ ?_⟩
      rw [hrep.pte, ← hm.pte, h.pte]
      by_cases hp : p = k
      · subst hp
        rw [Function.update_self, ← h.pte, hm.pte, Finmap.lookup_eq_none.2 hmem]
      · rw [Function.update_of_ne hp]
  · cases hmap

section Update

variable {k : ℕ}

theorem modify_at (h : t.Has g) {m : PageMap} (hm : t.Represents m) (hk : g k = some pte)
    (hset : set.present = false) (hclear : clear.present = false)
    (hmeets : set.meets clear = false) (f : Pte → Pte) {r : Status × PageTable}
    (hr : r.1 = (modify m (k * pageSize) set clear f).1 ∧
      r.2.Represents (modify m (k * pageSize) set clear f).2) :
    r.1 = .ok ∧ r.2.Has (Function.update g k (some (f pte))) := by
  have hpage : k * pageSize / pageSize = k := Nat.mul_div_cancel _ (by decide)
  have hlookup : m.lookup k = some pte := by rw [← hm.pte, h.pte, hk]
  have hmodify : modify m (k * pageSize) set clear f = (.ok, m.insert k (f pte)) := by
    rw [modify, hpage, hlookup, updateIsValid_page (h.user hk) hset hclear hmeets]
    rfl
  rw [hmodify] at hr
  exact ⟨hr.1, h.insert hm hr.2⟩

theorem updateAttributes_at (h : t.Has g) (hk : g k = some pte) (hset : set.present = false)
    (hclear : clear.present = false) (hmeets : set.meets clear = false)
    (hbad : set.locked = true → k ∈ bad) :
    Triple μ 0 t.sites (fun s ↦ LockedResident ν s t bad)
      (t.updateAttributes (k * pageSize) protection set clear) (fun r ↦ r.2.sites)
      fun r s ↦ LockedResident ν s r.2 bad ∧ r.1 = .ok ∧
        r.2.Has (Function.update g k (some (revised pte pte.frame protection set clear))) := by
  obtain ⟨m, hm⟩ := h.good
  have hpage : k * pageSize / pageSize = k := Nat.mul_div_cancel _ (by decide)
  refine (updateAttributes_spec hm fun hl ↦ by rw [hpage]; exact hbad hl).returns ?_
  refine (modify_follows hm _ _ _ _ fun pte ha hpte ↦
    commitAttributes_follows hm ha hpte _ _ _).mono fun r hr ↦ ?_
  exact modify_at h hm hk hset hclear hmeets
    (fun pte ↦ revised pte pte.frame protection set clear) hr

theorem updateFlags_at (h : t.Has g) (hk : g k = some pte) (hset : set.present = false)
    (hclear : clear.present = false) (hmeets : set.meets clear = false)
    (hbad : set.locked = true → k ∈ bad) :
    Triple μ 0 t.sites (fun s ↦ LockedResident ν s t bad)
      (t.updateFlags (k * pageSize) set clear) (fun r ↦ r.2.sites)
      fun r s ↦ LockedResident ν s r.2 bad ∧ r.1 = .ok ∧
        r.2.Has (Function.update g k (some (revised pte pte.frame pte.protection set clear))) := by
  obtain ⟨m, hm⟩ := h.good
  have hpage : k * pageSize / pageSize = k := Nat.mul_div_cancel _ (by decide)
  refine (updateFlags_spec hm fun hl ↦ by rw [hpage]; exact hbad hl).returns ?_
  refine (modify_follows hm _ _ _ (fun pte ↦ revised pte pte.frame pte.protection set clear)
    fun pte ha hpte ↦ commitAttributes_follows hm ha hpte _ _ _).mono fun r hr ↦ ?_
  exact modify_at h hm hk hset hclear hmeets
    (fun pte ↦ revised pte pte.frame pte.protection set clear) hr

/-- An entry refers to the frame. -/
def Refers (g : ℕ → Option Pte) (frame : FrameId) : Prop :=
  ∃ q pte, g q = some pte ∧ pte.frame = frame

theorem Refers.mem (h : Refers g frame) (ht : t.Has g) : ref frame ∈ t.sites := by
  obtain ⟨q, pte, hq, rfl⟩ := h
  exact Multiset.mem_of_le (Inv.pte_sites_le ((ht.pte q).trans hq)) (Inv.ref_mem_sites pte)

theorem replaceFrame_at (h : t.Has g) (hk : g k = some pte) {K : Multiset Handle}
    (href : ref frame ∈ K ∨ Refers g frame) (hset : set.present = false)
    (hclear : clear.present = false) (hmeets : set.meets clear = false) :
    Triple μ K t.sites (fun s ↦ LockedResident μ s t bad)
      (t.replaceFrame (k * pageSize) frame protection set clear) (fun r ↦ r.2.sites)
      fun r s ↦ LockedResident μ s r.2 bad ∧ r.1 = .ok ∧
        r.2.Has (Function.update g k (some (revised pte frame protection set clear))) := by
  obtain ⟨m, hm⟩ := h.good
  have hmem : ref frame ∈ K + t.sites := Multiset.mem_add.2 (href.imp_right fun hr ↦ hr.mem h)
  refine (replaceFrame_spec hm hmem).returns
    ((replaceFrame_follows hm _ _ _ _ _).mono fun r hr ↦ ?_)
  exact modify_at h hm hk hset hclear hmeets (fun pte ↦ revised pte frame protection set clear) hr

end Update

/-! ## Intervals of pages -/

theorem Has.findNext (h : t.Has g) {k b : ℕ} (hkb : k ≤ b) (hb : b * pageSize ≤ userAddressLimit) :
    (∃ p pte, t.findNext (k * pageSize) (b * pageSize) = .ok (p * pageSize) ∧ k ≤ p ∧ p < b ∧
        g p = some pte ∧ ∀ q, k ≤ q → q < p → g q = none) ∨
      ((∃ e, t.findNext (k * pageSize) (b * pageSize) = .error e) ∧
        ∀ q, k ≤ q → q < b → g q = none) := by
  obtain ⟨m, hm⟩ := h.good
  have hg : ∀ p, g p = m.lookup p := fun p ↦ by rw [← h.pte, hm.pte]
  have hpos : 0 < pageSize := by decide
  rcases hm.findNext_eq (Nat.mul_le_mul_right _ hkb) hb (Nat.mul_mod_left _ _)
    (Nat.mul_mod_left _ _) with ⟨p, hp, hnext⟩ | ⟨he, hnone⟩
  · left
    obtain ⟨pte, hpte⟩ := Finmap.mem_iff.1 hnext.mem
    refine ⟨p, pte, hp, Nat.le_of_mul_le_mul_right hnext.start_le hpos,
      Nat.lt_of_mul_lt_mul_right hnext.lt_stop, by rw [hg, hpte], fun q hkq hqp ↦ ?_⟩
    rw [hg]
    refine Finmap.lookup_eq_none.2 fun hmem ↦ ?_
    exact absurd (hnext.least q hmem (Nat.mul_le_mul_right _ hkq)) (Nat.not_le_of_lt hqp)
  · right
    refine ⟨⟨_, he⟩, fun q hkq hqb ↦ ?_⟩
    rw [hg]
    refine Finmap.lookup_eq_none.2 fun hmem ↦ hnone q hmem ⟨Nat.mul_le_mul_right _ hkq, ?_⟩
    exact Nat.mul_lt_mul_of_pos_right hqb hpos

theorem skip_pages {I : ℕ → Prop} {k p : ℕ} (hkp : k ≤ p)
    (hskip : ∀ q, k ≤ q → q < p → I q → I (q + 1)) (h : I k) : I p := by
  induction p, hkp using Nat.le_induction with
  | base => exact h
  | succ p hkp ih => exact hskip p hkp p.lt_succ_self (ih fun q hq hlt ↦ hskip q hq (by omega))

variable {I : ℕ → PageTable → Sys → Prop} {F : Status → PageTable → Sys → Prop} {a b : ℕ}
  {body : PageTable → ℕ → Code (Status × PageTable)}

/-- What a loop over an interval of pages leaves: `I` at the end, or `F` of a round that failed. -/
def Walked (I : ℕ → PageTable → Sys → Prop) (F : Status → PageTable → Sys → Prop) (k : ℕ)
    (r : Status × PageTable) (s : Sys) : Prop :=
  r.1 = .ok ∧ I k r.2 s ∨ r.1 ≠ .ok ∧ F r.1 r.2 s

/-- The rule for the loops over an interval: `I k` holds of the table once the pages below `k` have
been treated. -/
theorem walk_spec (hb : b * pageSize ≤ userAddressLimit)
    (hgood : ∀ k t s, I k t s → ∃ m, t.Represents m)
    (hskip : ∀ k t s, a ≤ k → k < b → t.pte k = none → I k t s → I (k + 1) t s)
    (hbody : ∀ k t pte, a ≤ k → k < b → t.pte k = some pte →
      Triple μ K (X + t.sites) (I k t) (body t (k * pageSize)) (fun r ↦ X + r.2.sites)
        (Walked I F (k + 1)))
    (fuel : ℕ) {k : ℕ} (hak : a ≤ k) (hkb : k ≤ b) (hfuel : b - k ≤ fuel) :
    Triple μ K (X + t.sites) (I k t) (walk body fuel t (k * pageSize) (b * pageSize))
      (fun r ↦ X + r.2.sites) (Walked I F b) := by
  induction fuel generalizing t k with
  | zero =>
    have hk : k = b := by omega
    subst hk
    exact .pure rfl fun _ h ↦ .inl ⟨rfl, h⟩
  | succ fuel ih =>
    intro s x w hK hat hI
    obtain ⟨m, hm⟩ := hgood k t _ hI
    rw [walk]
    rcases (Has.of_represents hm).findNext hkb hb with
      ⟨p, pte, hfound, hkp, hpb, hpte, hnone⟩ | ⟨⟨e, hfound⟩, hnone⟩
    · rw [hfound]
      have hIp : I p t w.sys := skip_pages (I := fun q ↦ I q t w.sys) hkp
        (fun q hkq hqp h ↦ hskip q t _ (hak.trans hkq) (hqp.trans hpb) (hnone q hkq hqp) h) hI
      refine (hbody p t pte (hak.trans hkp) hpb hpte).seq (F := 0) hat (add_zero _).symm
        (by simpa using hK) hIp ?_
      rintro ⟨status, t1⟩ w1 hat1 - h1
      rw [add_zero] at hat1
      dsimp only
      split_ifs with hstatus
      · rcases h1 with ⟨hok, -⟩ | hfailed
        · exact absurd hok hstatus
        · exact ⟨hat1, .inr hfailed⟩
      · rcases h1 with ⟨-, hI1⟩ | ⟨hne, -⟩
        · have hnext : p * pageSize + pageSize = (p + 1) * pageSize := (Nat.succ_mul _ _).symm
          rw [hnext]
          exact ih (hak.trans (hkp.trans p.le_succ)) hpb (by omega) s x w1 hK hat1 hI1
        · exact absurd (not_not.1 hstatus) hne
    · rw [hfound]
      refine ⟨hat, .inl ⟨rfl, ?_⟩⟩
      exact skip_pages (I := fun q ↦ I q t w.sys) hkb
        (fun q hkq hqb h ↦ hskip q t _ (hak.trans hkq) hqb (hnone q hkq hqb) h) hI

theorem walkRange_spec (hab : a ≤ b) (hb : b * pageSize ≤ userAddressLimit)
    (hgood : ∀ k t s, I k t s → ∃ m, t.Represents m)
    (hskip : ∀ k t s, a ≤ k → k < b → t.pte k = none → I k t s → I (k + 1) t s)
    (hbody : ∀ k t pte, a ≤ k → k < b → t.pte k = some pte →
      Triple μ K (X + t.sites) (I k t) (body t (k * pageSize)) (fun r ↦ X + r.2.sites)
        (Walked I F (k + 1))) :
    Triple μ K (X + t.sites) (I a t) (t.walkRange (a * pageSize) (b * pageSize) body)
      (fun r ↦ X + r.2.sites) (Walked I F b) := by
  have hfuel : (b * pageSize - a * pageSize) / pageSize = b - a := by
    rw [← Nat.sub_mul, Nat.mul_div_cancel _ (by decide)]
  rw [walkRange, hfuel]
  exact walk_spec hb hgood hskip hbody (b - a) le_rfl hab le_rfl

end PageTable

end MiniMM
