import MiniMM.Spec.Access
import MiniMM.Spec.Copy

/-!
# Moves of page table entries

`minimm_mapping_move_ptes_locked` and `minimm_mapping_move_ptes_fixed_locked`: on success the
entries of the source are those of the destination, on failure everything is as it was.
-/

namespace MiniMM

open Handle Vma PageTable VmaSnapshot

/-- Mapping the frame of the entry again gives the same entry. -/
structure Pte.Settled (pte : Pte) : Prop where
  present : pte.flags.present = true
  protection : effectiveProtection pte.protection pte.flags = pte.protection

theorem ViewOk.settled {x : View} {pte : Pte} (h : ViewOk x pte) : pte.Settled := by
  refine ⟨h.present, ?_⟩
  rw [h.protection]
  exact Space.effectiveProtection_twice fun hcow ↦ hcow

theorem Space.Wf.settled {c : Space} (h : c.Wf) {p : ℕ} {pte : Pte}
    (hp : c.pageTable.pte p = some pte) : pte.Settled := by
  obtain ⟨x, -, hok⟩ := h.view hp
  exact hok.settled

theorem Pte.Settled.mapped {pte : Pte} (h : pte.Settled) :
    mappedPte pte.frame pte.protection pte.flags = pte := by
  have hflags : { pte.flags with present := true } = pte.flags := by
    rw [← h.present]
  rw [mappedPte, hflags, h.protection]

theorem Pte.Settled.revised {pte old : Pte} (h : pte.Settled) (hold : old.flags.present = true) :
    PageTable.revised old pte.frame pte.protection pte.flags.restore.1
      pte.flags.restore.2 = pte := by
  have hflags : old.flags.update pte.flags.restore.1 pte.flags.restore.2 = pte.flags := by
    obtain ⟨frame, protection, present, cow, shared, accessed, dirty, locked⟩ := pte
    have hpresent : present = true := h.present
    simp +contextual [PteFlags.update, PteFlags.restore, hold, hpresent]
  rw [PageTable.revised, hflags, h.protection]

namespace Space

variable {μ : Mode} {i : SpaceId} {bad : Set ℕ} {c : Space} {t : PageTable} {g g0 : ℕ → Option Pte}
  {a d n m k : ℕ}

/-! ## Entries at two places -/

/-- The entries of the pages below `k` have been put at the destination as well. -/
def movedBelow (a d k : ℕ) (g : ℕ → Option Pte) (p : ℕ) : Option Pte :=
  if d ≤ p ∧ p < d + (k - a) then (g (a + (p - d))).or (g p) else g p

/-- The entries of `n` pages moved to `m` pages. -/
def moveResult (a n d m : ℕ) (g : ℕ → Option Pte) (p : ℕ) : Option Pte :=
  if d ≤ p ∧ p < d + m then if p - d < n then g (a + (p - d)) else none
  else if a ≤ p ∧ p < a + n then none
  else g p

/-- No page is of both ranges. -/
def Apart (a n d m : ℕ) : Prop := ∀ p, a ≤ p ∧ p < a + n → ¬(d ≤ p ∧ p < d + m)

theorem movedBelow_of_not {p : ℕ} (hp : ¬(d ≤ p ∧ p < d + (k - a))) :
    movedBelow a d k g p = g p := if_neg hp

theorem movedBelow_start (p : ℕ) : movedBelow a d a g p = g p := movedBelow_of_not (by omega)

theorem movedBelow_source (h : Apart a n d n) {p : ℕ} (hk : k ≤ a + n) (hp : a ≤ p ∧ p < a + n) :
    movedBelow a d k g p = g p := by
  have hd := h p hp
  exact movedBelow_of_not (by omega)

theorem movedBelow_mem {p : ℕ} {pte : Pte} (h : movedBelow a d k g p = some pte) :
    ∃ q, g q = some pte := by
  rw [movedBelow] at h
  split_ifs at h
  · rcases Option.or_eq_some_iff.1 h with hq | ⟨-, hp⟩
    · exact ⟨_, hq⟩
    · exact ⟨p, hp⟩
  · exact ⟨p, h⟩

theorem update_movedBelow {pte : Pte} (hk : a ≤ k) (hpte : g k = some pte) (p : ℕ) :
    Function.update (movedBelow a d k g) (moved a d k) (some pte) p = movedBelow a d
      (k + 1) g p := by
  by_cases hp : p = moved a d k
  · subst hp
    have hback : a + (moved a d k - d) = k := by
      simp only [moved]
      omega
    rw [Function.update_self, movedBelow, if_pos (by simp only [moved]; omega), hback, hpte]
    rfl
  · rw [Function.update_of_ne hp, movedBelow, movedBelow]
    simp only [moved] at hp
    split_ifs <;> first | rfl | omega

theorem skip_movedBelow (hk : a ≤ k) (hpte : g k = none) (p : ℕ) :
    movedBelow a d k g p = movedBelow a d (k + 1) g p := by
  rw [movedBelow, movedBelow]
  split_ifs with h1 h2 h2
  · rfl
  · omega
  · rw [show a + (p - d) = k by omega, hpte]
    rfl
  · rfl

/-- The entry `pte` has been put at the page `q`, or there was an error. -/
def Put (g : ℕ → Option Pte) (q : ℕ) (pte : Pte) (r : Status × PageTable) : Prop :=
  r.1 = .ok ∧ r.2.Has (Function.update g q (some pte)) ∨ r.1 ≠ .ok ∧ r.2.Has g

theorem moveWalk_spec {body : PageTable → ℕ → Code (Status × PageTable)} (ht : t.Has g)
    (hsettled : ∀ p pte, g p = some pte → pte.Settled) (hapart : Apart a n d n)
    (hlimit : a * pageSize + n * pageSize ≤ userAddressLimit)
    (hbody : ∀ k t g pte, t.Has g → g k = some pte → (∀ p pte, g p = some pte → pte.Settled) →
      Triple μ 0 t.sites (fun s ↦ t.LockedResident μ s ∅) (body t (k * pageSize))
        (fun r ↦ r.2.sites) fun r s ↦ r.2.LockedResident μ s ∅ ∧ Put g (moved a d k) pte r) :
    Triple μ 0 t.sites (fun s ↦ t.LockedResident μ s ∅)
      (t.walkRange (a * pageSize) (a * pageSize + n * pageSize) body) (fun r ↦ r.2.sites)
      fun r s ↦ r.2.LockedResident μ s ∅ ∧
        (r.1 = .ok ∧ r.2.Has (movedBelow a d (a + n) g) ∨
          r.1 ≠ .ok ∧ ∃ k ≤ a + n, r.2.Has (movedBelow a d k g)) := by
  rw [← Nat.add_mul] at hlimit ⊢
  have hwalk : Triple μ 0 (0 + t.sites)
      (fun s ↦ t.Has (movedBelow a d a g) ∧ t.LockedResident μ s ∅)
      (t.walkRange (a * pageSize) ((a + n) * pageSize) body) (fun r ↦ 0 + r.2.sites)
      (Walked (fun k t s ↦ t.Has (movedBelow a d k g) ∧ t.LockedResident μ s ∅)
        (fun _ t s ↦ (∃ k ≤ a + n, t.Has (movedBelow a d k g)) ∧
          t.LockedResident μ s ∅) (a + n)) := by
    refine walkRange_spec (I := fun k t s ↦ t.Has (movedBelow a d k g) ∧ t.LockedResident μ s ∅)
      (Nat.le_add_right a n) hlimit (fun k t s h ↦ h.1.good) (fun k t s hak hkb hnone h ↦ ?_)
      fun k t pte hak hkb hpte ↦ ?_
    · rw [h.1.pte, movedBelow_source hapart hkb.le ⟨hak, hkb⟩] at hnone
      exact ⟨h.1.congr (skip_movedBelow hak hnone), h.2⟩
    · intro s x w hK hat ⟨hhas, hlocked⟩
      have hbelow : movedBelow a d k g k = some pte := by rw [← hhas.pte, hpte]
      have hgk : g k = some pte := by
        rw [← hbelow, movedBelow_source hapart hkb.le ⟨hak, hkb⟩]
      have hput := hbody k t _ pte hhas hbelow fun p pte hp ↦ by
        obtain ⟨q, hq⟩ := movedBelow_mem hp
        exact hsettled q pte hq
      refine hput.tail (F := 0) hat ((zero_add _).trans (add_zero _).symm) zero_le hlocked ?_
      rintro r w1 hat1 - ⟨hlocked1, ⟨hok, hhas1⟩ | ⟨hbad, hhas1⟩⟩
      · refine ⟨hat1.congr (add_comm _ _), .inl ⟨hok, hhas1.congr ?_, hlocked1⟩⟩
        exact update_movedBelow hak hgk
      · exact ⟨hat1.congr (add_comm _ _), .inr ⟨hbad, ⟨k, hkb.le, hhas1⟩, hlocked1⟩⟩
  rw [zero_add] at hwalk
  refine hwalk.conseq (fun s hs ↦ ⟨ht.congr fun p ↦ (movedBelow_start p).symm, hs⟩)
    (fun r ↦ (zero_add _).symm) ?_
  rintro r s (⟨hok, hhas, hlocked⟩ | ⟨hbad, hhas, hlocked⟩)
  · exact ⟨hlocked, .inl ⟨hok, hhas⟩⟩
  · exact ⟨hlocked, .inr ⟨hbad, hhas⟩⟩

theorem mapAgain_spec {pte : Pte} (ht : t.Has g) (hk : g k = some pte) (hsettled : pte.Settled)
    (q : ℕ) :
    Triple μ 0 t.sites (fun s ↦ t.LockedResident μ s ∅)
      (t.map (q * pageSize) pte.frame pte.protection pte.flags) (fun r ↦ r.2.sites)
      fun r s ↦ r.2.LockedResident μ s ∅ ∧ Put g q pte r := by
  have hpte : t.pte k = some pte := (ht.pte k).trans hk
  have href : ref pte.frame ∈ 0 + t.sites := by
    rw [zero_add]
    exact Multiset.mem_of_le (Inv.pte_sites_le hpte) (Inv.ref_mem_sites pte)
  have hpin : μ.prompt = true → pte.flags.locked = true → pin pte.frame ∈ t.sites := fun _ hl ↦
    Multiset.mem_of_le (Inv.pte_sites_le hpte) (Inv.pin_mem_sites hl)
  refine (map_at ∅ ht href hpin).conseq (fun s hs ↦ ⟨hs, fun hμ hl ↦ ?_⟩) (fun _ ↦ rfl) ?_
  · exact hs hμ k pte hpte hl (Set.notMem_empty k)
  · rintro r s ⟨hlocked, ⟨hok, -, -, -, hhas⟩ | hbad⟩
    · rw [Nat.mul_div_cancel _ (by decide), hsettled.mapped] at hhas
      exact ⟨hlocked, .inl ⟨hok, hhas⟩⟩
    · exact ⟨hlocked, .inr hbad⟩

/-! ## Into free addresses -/

theorem moveBody_spec {pte : Pte} (ht : t.Has g) (hk : g k = some pte) (hsettled : pte.Settled) :
    Triple μ 0 t.sites (fun s ↦ t.LockedResident μ s ∅)
      (moveBody (a * pageSize) (d * pageSize) t (k * pageSize)) (fun r ↦ r.2.sites)
      fun r s ↦ r.2.LockedResident μ s ∅ ∧ Put g (moved a d k) pte r := by
  rw [moveBody, ht.lookup_page, hk]
  dsimp only
  rw [moved_address]
  exact mapAgain_spec ht hk hsettled _

theorem swept_movedBelow (hfree : ∀ p, d ≤ p ∧ p < d + n → g p = none) (hk : k ≤ a + n) (p : ℕ) :
    swept (d * pageSize) (d * pageSize + n * pageSize) (fun _ _ ↦ none) (movedBelow a d k g) p =
      g p := by
  by_cases hp : d ≤ p ∧ p < d + n
  · rw [swept_of_within (within_pages.2 hp), Option.bind_fun_none, hfree p hp]
  · rw [swept_of_not fun hin ↦ hp (within_pages.1 hin), movedBelow_of_not (by omega)]

theorem swept_moved (hfree : ∀ p, d ≤ p ∧ p < d + m → g p = none) (hapart : Apart a n d m)
    (hnm : n ≤ m) (p : ℕ) :
    swept (a * pageSize) (a * pageSize + n * pageSize) (fun _ _ ↦ none)
      (movedBelow a d (a + n) g) p = moveResult a n d m g p := by
  have hsource := hapart p
  by_cases hp : a ≤ p ∧ p < a + n
  · rw [swept_of_within (within_pages.2 hp), Option.bind_fun_none, moveResult, if_neg (hsource hp),
      if_pos hp]
  · rw [swept_of_not fun hin ↦ hp (within_pages.1 hin), moveResult, movedBelow]
    split_ifs with h1 h2 h3 h4 h5
    · rw [hfree p h2, Option.or_none]
    · omega
    · omega
    · omega
    · exact hfree p h4
    · rfl

theorem movePtesLocked_spec (ht : t.Has g) (hsettled : ∀ p pte, g p = some pte → pte.Settled)
    (hfree : ∀ p, d ≤ p ∧ p < d + m → g p = none) (hapart : Apart a n d m) (hnm : n ≤ m)
    (ha : a * pageSize + n * pageSize ≤ userAddressLimit)
    (hd : d * pageSize + n * pageSize ≤ userAddressLimit) :
    Triple μ 0 ({lock (.space i)} + t.sites)
      (fun s ↦ Tlb.All (Agrees t) i s ∧ t.LockedResident μ s ∅)
      (movePtesLocked i t (a * pageSize) (d * pageSize) (n * pageSize))
      (fun r ↦ {lock (.space i)} + r.2.sites)
      fun r s ↦ Tlb.All (Agrees r.2) i s ∧ r.2.LockedResident μ s ∅ ∧
        (r.1 = .ok ∧ r.2.Has (moveResult a n d m g) ∨ r.1 ≠ .ok ∧ r.2.Has g) := by
  intro s x w hK hat ⟨htlb, hlocked⟩
  have hapart' : Apart a n d n := fun p hp hq ↦ hapart p hp (by omega)
  have htlb' : ∀ {k : ℕ} {t' : PageTable} {s : Sys}, k ≤ a + n → t'.Has (movedBelow a d k g) →
      Tlb.All (Agrees t) i s → Tlb.All (Agrees t') i s := fun hk ht' h ↦ h.mono fun e he ↦ by
    have hpte : g e.virtualPage = some e.translation := by rw [← ht.pte]; exact he
    rw [Agrees, ht'.pte, movedBelow_of_not, hpte]
    intro hin
    rw [hfree _ (by omega)] at hpte
    cases hpte
  refine (moveWalk_spec ht hsettled hapart' ha fun k t g pte ht hk hsettled ↦
    moveBody_spec ht hk (hsettled k pte hk)).seq hat (add_comm _ _) zero_le hlocked ?_
  rintro ⟨status, t1⟩ w1 hat1 hk1 ⟨hlocked1, ⟨rfl, hhas1⟩ | ⟨hbad, k, hk, hhas1⟩⟩
  · have htlb1 := htlb' le_rfl hhas1 (htlb.keeps hk1 (by simp))
    dsimp only at hat1 hhas1 hlocked1 htlb1 ⊢
    rw [if_neg (by simp)]
    refine (Tlb.invalidateRange_spec (d * pageSize) _).seq hat1 (add_comm _ _) zero_le htlb1
      fun _ w2 hat2 hk2 htlb2 ↦ ?_
    refine (unmapPagesLocked_spec hhas1 le_self_add ha (Nat.mul_mod_left _ _) ?_).first
      hat2 ⟨htlb2.mono fun e he ↦ he.1, hlocked1.keeps hk2 le_self_add⟩ ?_
    · rw [← Nat.add_mul]
      exact Nat.mul_mod_left _ _
    rintro t3 w3 hat3 - ⟨hhas3, htlb3, hlocked3⟩
    refine ⟨hat3.congr (add_zero _), htlb3, hlocked3, .inl ⟨rfl, hhas3.congr ?_⟩⟩
    exact swept_moved hfree hapart hnm
  · have htlb1 := htlb' hk hhas1 (htlb.keeps hk1 (by simp))
    dsimp only at hat1 hhas1 hlocked1 htlb1 hbad ⊢
    rw [if_pos hbad]
    refine (unmapPagesLocked_spec hhas1 le_self_add hd (Nat.mul_mod_left _ _) ?_).seq (F := 0) hat1
      ((add_comm _ _).trans (add_zero _).symm) zero_le ⟨htlb1, hlocked1⟩ ?_
    · rw [← Nat.add_mul]
      exact Nat.mul_mod_left _ _
    rintro t2 w2 hat2 - ⟨hhas2, htlb2, hlocked2⟩
    refine ⟨hat2.congr (add_zero _), htlb2, hlocked2, .inr ⟨hbad, hhas2.congr ?_⟩⟩
    exact swept_movedBelow (fun p hp ↦ hfree p (by omega)) hk

/-! ## Over another mapping -/

theorem replacePteLocked_spec {pte : Pte} {q : ℕ} (ht : t.Has g) (hk : g k = some pte)
    (hsettled : ∀ p pte, g p = some pte → pte.Settled) :
    Triple μ 0 t.sites (fun s ↦ t.LockedResident μ s ∅) (replacePteLocked t (q * pageSize) pte)
      (fun r ↦ r.2.sites) fun r s ↦ r.2.LockedResident μ s ∅ ∧ Put g q pte r := by
  rw [replacePteLocked, ht.lookup_page]
  cases hq : g q with
  | none => exact mapAgain_spec ht hk (hsettled k pte hk) q
  | some old =>
    rw [if_neg (by simp)]
    have hmeets : pte.flags.restore.1.meets pte.flags.restore.2 = false := by
      simp [PteFlags.meets, PteFlags.restore]
    refine (replaceFrame_at ht hq (.inr ⟨k, pte, hk, rfl⟩) rfl rfl hmeets).post ?_
    rintro r s ⟨hlocked, hok, hhas⟩
    rw [(hsettled k pte hk).revised (hsettled q old hq).present] at hhas
    exact ⟨hlocked, .inl ⟨hok, hhas⟩⟩

theorem replaceBody_spec {pte : Pte} (ht : t.Has g) (hk : g k = some pte)
    (hsettled : ∀ p pte, g p = some pte → pte.Settled) :
    Triple μ 0 t.sites (fun s ↦ t.LockedResident μ s ∅)
      (replaceBody (a * pageSize) (d * pageSize) t (k * pageSize)) (fun r ↦ r.2.sites)
      fun r s ↦ r.2.LockedResident μ s ∅ ∧ Put g (moved a d k) pte r := by
  rw [replaceBody, ht.lookup_page, hk]
  dsimp only
  rw [moved_address]
  exact replacePteLocked_spec ht hk hsettled

/-- What is kept of an entry in the way. -/
def savedPage (e : ℕ × Pte) : SavedPage := ⟨e.1 * pageSize, e.2, e.2.flags.locked⟩

def savedSites (saved : List SavedPage) : Multiset Handle :=
  (saved.map fun p ↦ {ref p.pte.frame} +
    if p.rollbackPinHeld = true then {transient p.pte.frame} else 0).sum

theorem savedSites_append (saved saved' : List SavedPage) :
    savedSites (saved ++ saved') = savedSites saved + savedSites saved' := by
  rw [savedSites, List.map_append, List.sum_append]
  rfl

theorem savedSites_single (p : SavedPage) : savedSites [p] = {ref p.pte.frame} +
    if p.rollbackPinHeld = true then {transient p.pte.frame} else 0 := by
  simp [savedSites]

theorem ref_mem_savedSites {l : List (ℕ × Pte)} {e : ℕ × Pte} (he : e ∈ l) :
    ref e.2.frame ∈ savedSites (l.map savedPage) := by
  obtain ⟨l1, l2, rfl⟩ := List.append_of_mem he
  rw [List.map_append, savedSites_append, List.map_cons, ← List.singleton_append, savedSites_append,
    savedSites_single]
  simp [savedPage]

theorem savePages_spec {K : Multiset Handle} (l : List (ℕ × Pte)) (saved : List SavedPage)
    (hK : ∀ e ∈ l, ref e.2.frame ∈ K) :
    Triple μ K (savedSites saved) (fun _ ↦ True) (savePages (byAddress l) saved)
      (fun r ↦ savedSites r.2) fun r _ ↦ r.1 = true → r.2 = saved ++ l.map savedPage := by
  induction l generalizing saved with
  | nil => exact .pure rfl fun _ _ _ ↦ (List.append_nil saved).symm
  | cons e rest ih =>
    rw [List.forall_mem_cons] at hK
    intro s x w hKx hat _
    have href : ∀ F, {ref e.2.frame} ≤ F + x := fun F ↦
      (Multiset.singleton_le.2 hK.1).trans (hKx.trans (le_add_left le_rfl))
    have happend : saved ++ (e :: rest).map savedPage =
        (saved ++ [savedPage e]) ++ rest.map savedPage := by simp
    rw [happend, byAddress, List.map_cons, savePages]
    refine retain_spec.seq hat (zero_add _).symm (href _) trivial fun _ w1 hat1 _ _ ↦ ?_
    by_cases hl : e.2.flags.locked = true
    · rw [if_pos hl]
      refine tryPinResident_spec.seq hat1 (zero_add _).symm (href _) trivial
        fun pinned w2 hat2 _ _ ↦ ?_
      have hpinned : savedSites (saved ++ [⟨e.1 * pageSize, e.2, pinned⟩]) =
          (if pinned = true then {transient e.2.frame} else 0) +
            ({ref e.2.frame} + savedSites saved) := by
        rw [savedSites_append, savedSites_single]
        ac_rfl
      rw [← hpinned] at hat2
      cases pinned with
      | true =>
        have hsaved : savedPage e = ⟨e.1 * pageSize, e.2, true⟩ := by rw [savedPage, hl]
        rw [hsaved]
        exact ih _ hK.2 s x w2 hKx hat2 trivial
      | false => exact ⟨hat2, fun h ↦ absurd h Bool.false_ne_true⟩
    · rw [if_neg hl]
      have hsaved : savedPage e = ⟨e.1 * pageSize, e.2, false⟩ := by
        rw [savedPage, Bool.eq_false_of_not_eq_true hl]
      rw [hsaved]
      refine ih _ hK.2 s x w1 hKx (hat1.congr ?_) trivial
      rw [savedSites_append, savedSites_single]
      simp [add_comm]

theorem releaseSaved_spec (saved : List SavedPage) :
    Spends μ 0 (savedSites saved) (fun _ ↦ True) (releaseSaved saved) := by
  induction saved with
  | nil => exact .pure rfl fun _ _ ↦ trivial
  | cons p rest ih =>
    intro s x w hK hat _
    have hunpin : Spends μ {ref p.pte.frame}
        (if p.rollbackPinHeld = true then {transient p.pte.frame} else 0) (fun _ ↦ True)
        (Code.when p.rollbackPinHeld (Code.store (.unpinResident p.pte.frame))) := by
      refine .when (fun hheld ↦ ?_) fun hheld ↦ ⟨by simp [hheld], fun _ _ ↦ trivial⟩
      rw [if_pos hheld]
      exact unpinResident_spec
    refine hunpin.seq (F := {ref p.pte.frame} + savedSites rest) hat ?_
      (le_self_add.trans le_self_add) trivial fun _ w1 hat1 _ _ ↦ ?_
    · rw [← List.singleton_append, savedSites_append, savedSites_single]
      ac_rfl
    refine release_spec.seq hat1 (zero_add _) zero_le trivial fun _ w2 hat2 _ _ ↦ ?_
    exact ih s x w2 hK (hat2.congr (zero_add _)) trivial

/-- A sweep over pages `[d, d + m)` by a body that needs nothing but the table. -/
theorem sweepPages_spec {J : PageTable → Sys → Prop}
    {body : PageTable → ℕ → Code (Status × PageTable)} (f : ℕ → Pte → Option Pte) (ht : t.Has g)
    (hlimit : d * pageSize + m * pageSize ≤ userAddressLimit)
    (hbody : ∀ k t g pte, d ≤ k ∧ k < d + m → t.Has g → g k = some pte →
      Triple μ 0 t.sites (J t) (body t (k * pageSize)) (fun r ↦ r.2.sites)
        fun r s ↦ r.1 = .ok ∧ r.2.Has (Function.update g k (f k pte)) ∧ J r.2 s) :
    Triple μ 0 t.sites (J t) (t.walkRange (d * pageSize) (d * pageSize + m * pageSize) body)
      (fun r ↦ r.2.sites) fun r s ↦ r.1 = .ok ∧
        r.2.Has (swept (d * pageSize) (d * pageSize + m * pageSize) f g) ∧ J r.2 s := by
  have hsweep : Triple μ 0 (0 + t.sites) (J t)
      (t.walkRange (d * pageSize) (d * pageSize + m * pageSize) body) (fun r ↦ 0 + r.2.sites)
      fun r s ↦ r.1 = .ok ∧
        r.2.Has (swept (d * pageSize) (d * pageSize + m * pageSize) f g) ∧ J r.2 s := by
    refine sweep_spec f ht le_self_add hlimit (Nat.mul_mod_left _ _)
      (by rw [← Nat.add_mul]; exact Nat.mul_mod_left _ _) fun k t g pte hin hg hk ↦ ?_
    rw [zero_add]
    exact (hbody k t g pte (within_pages.1 hin) hg hk).conseq (fun _ h ↦ h) (fun _ ↦ zero_add _)
      fun _ _ h ↦ h
  rw [zero_add] at hsweep
  exact hsweep.conseq (fun _ h ↦ h) (fun _ ↦ (zero_add _).symm) fun _ _ h ↦ h

/-! ### Rolling back -/

theorem restoreSaved_spec {K : Multiset Handle} (l : List (ℕ × Pte)) (ht : t.Has g)
    (hK : ∀ e ∈ l, ref e.2.frame ∈ K) (hsaved : ∀ e ∈ l, e.2.Settled)
    (hsome : ∀ e ∈ l, ∃ pte, g e.1 = some pte ∧ pte.flags.present = true) :
    Triple μ K t.sites (fun s ↦ t.LockedResident μ s ∅) (restoreSaved (l.map savedPage) t)
      (fun t' ↦ t'.sites)
      fun t' s ↦ t'.LockedResident μ s ∅ ∧ t'.Has (putAll id some l g) := by
  induction l generalizing t g with
  | nil => exact .pure rfl fun _ h ↦ ⟨h, ht⟩
  | cons e rest ih =>
    rw [List.forall_mem_cons] at hK hsaved hsome
    obtain ⟨⟨old, hold, hpresent⟩, hsome⟩ := hsome
    intro s x w hKx hat h
    have hmeets : e.2.flags.restore.1.meets e.2.flags.restore.2 = false := by
      simp [PteFlags.meets, PteFlags.restore]
    rw [List.map_cons, restoreSaved, replacePteLocked, savedPage]
    dsimp only
    rw [ht.lookup_page, hold, if_neg (by simp)]
    refine (replaceFrame_at ht hold (.inl hK.1) rfl rfl hmeets).seq (F := 0) hat (add_zero _).symm
      (by simpa using hKx) h ?_
    rintro ⟨status, t'⟩ w1 hat1 - ⟨hlocked, -, hhas⟩
    rw [hsaved.1.revised hpresent] at hhas
    refine ih hhas hK.2 hsaved.2 (fun e' he' ↦ ?_) s x w1 hKx (hat1.congr (add_zero _)) hlocked
    by_cases heq : e'.1 = e.1
    · rw [heq, Function.update_self]
      exact ⟨_, rfl, hsaved.1.present⟩
    · rw [Function.update_of_ne heq]
      exact hsome e' he'

theorem findSaved_eq {l : List (ℕ × Pte)} (hl : l.Pairwise fun x y ↦ x.1 < y.1) (k : ℕ) :
    (findSavedPage (l.map savedPage) (k * pageSize)).isNone = true ↔ k ∉ l.map Prod.fst := by
  have haddress : ∀ {j : ℕ}, j * pageSize < k * pageSize ↔ j < k :=
    Nat.mul_lt_mul_right (by decide)
  have hsame : ∀ {j : ℕ}, j * pageSize = k * pageSize ↔ j = k :=
    Nat.mul_left_inj (by decide)
  have hdescends : Search.Descends (fun n ↦ (((l.map savedPage)[n]?).map fun p ↦
      decide (p.address < k * pageSize)).getD false) (l.map savedPage).length := by
    intro m n hmn hn hp
    rw [List.length_map] at hn
    have hm : m < l.length := hmn.trans_lt hn
    simp only [List.getElem?_map, List.getElem?_eq_getElem hn, List.getElem?_eq_getElem hm,
      Option.map_some, Option.getD_some, savedPage, decide_eq_true_eq, haddress] at hp ⊢
    rcases hmn.eq_or_lt with rfl | hlt
    · exact hp
    · exact (List.pairwise_iff_getElem.1 hl m n hm hn hlt).trans hp
  rw [findSavedPage, Search.getElem?_partitionPoint hdescends]
  clear hdescends
  induction l with
  | nil => simp
  | cons e rest ih =>
    rw [List.pairwise_cons] at hl
    rw [List.map_cons, List.find?_cons, savedPage, List.map_cons, List.mem_cons, not_or]
    by_cases hlt : e.1 < k
    · simp only [haddress, hlt, decide_true, Bool.not_true, ih hl.2]
      exact ⟨fun h ↦ ⟨hlt.ne', h⟩, fun h ↦ h.2⟩
    · simp only [haddress, hlt, decide_false, Bool.not_false, Option.filter_some, hsame]
      by_cases heq : e.1 = k
      · simp [heq]
      · simp only [heq, decide_false, Bool.false_eq_true, if_false, Option.isNone_none, true_iff]
        refine ⟨Ne.symm heq, fun hmem ↦ ?_⟩
        obtain ⟨e', he', rfl⟩ := List.mem_map.1 hmem
        have := hl.1 e' he'
        omega

theorem unmapUnsaved_spec {l : List (ℕ × Pte)} (hl : l.Pairwise fun x y ↦ x.1 < y.1) {pte : Pte}
    (ht : t.Has g) (hk : g k = some pte) :
    Triple μ 0 t.sites (fun s ↦ t.LockedResident μ s ∅)
      (unmapUnsaved (l.map savedPage) t (k * pageSize)) (fun r ↦ r.2.sites)
      fun r s ↦ r.1 = .ok ∧ r.2.Has (Function.update g k
        (if k ∈ l.map Prod.fst then some pte else none)) ∧ r.2.LockedResident μ s ∅ := by
  intro s x w hK hat h
  unfold unmapUnsaved
  by_cases hmem : k ∈ l.map Prod.fst
  · rw [if_neg fun hnone ↦ (findSaved_eq hl k).1 hnone hmem, if_pos hmem]
    refine ⟨hat, rfl, ht.congr fun p ↦ ?_, h⟩
    rw [← hk, Function.update_eq_self]
  · rw [if_pos ((findSaved_eq hl k).2 hmem), if_neg hmem]
    refine (unmap_at ht (ht.user hk)).first hat h
      fun r w1 hat1 _ ⟨hlocked, hhas⟩ ↦ ?_
    exact ⟨hat1.congr (add_zero _), rfl, hhas, hlocked⟩

theorem swept_restored {l : List (ℕ × Pte)}
    (hl : Collects g (d * pageSize) (d * pageSize + m * pageSize) l) (hk : k - a ≤ m) (p : ℕ) :
    swept (d * pageSize) (d * pageSize + m * pageSize)
      (fun p pte ↦ if p ∈ l.map Prod.fst then some pte else none)
      (putAll id some l (movedBelow a d k g)) p = g p := by
  have hmem : ∀ e ∈ l, g e.1 = some e.2 := fun e he ↦ ((hl.mem e.1 e.2).1 he).1
  by_cases hp : d ≤ p ∧ p < d + m
  · rw [swept_of_within (within_pages.2 hp)]
    cases hpte : g p with
    | none =>
      have hnot : p ∉ l.map Prod.fst := fun hin ↦ by
        obtain ⟨e, he, rfl⟩ := List.mem_map.1 hin
        rw [hmem e he] at hpte
        cases hpte
      simp [hnot]
    | some pte =>
      have he : (p, pte) ∈ l := (hl.mem _ _).2 ⟨hpte, within_pages.2 hp⟩
      have hput := putAll_of_mem (g := movedBelow a d k g) id some he
        fun e' he' heq ↦ by
          have heq' : e'.1 = p := heq
          refine Prod.ext heq' (Option.some.inj ?_)
          rw [← hmem e' he', heq', hpte]
      rw [show putAll id some l (movedBelow a d k g) p = some pte from hput, Option.bind_some,
        if_pos (List.mem_map.2 ⟨_, he, rfl⟩)]
  · rw [swept_of_not fun hin ↦ hp (within_pages.1 hin), putAll_of_not, movedBelow_of_not (by omega)]
    rintro e he rfl
    exact hp (within_pages.1 ((hl.mem e.1 e.2).1 he).2)

/-- The entries of the destination with which the walk stopped are still entries. -/
theorem movedBelow_some {p : ℕ} {pte : Pte} (h : g p = some pte) :
    ∃ pte', movedBelow a d k g p = some pte' := by
  rw [movedBelow]
  split_ifs
  · cases hq : g (a + (p - d)) with
    | none => exact ⟨pte, by rw [h]; rfl⟩
    | some pte' => exact ⟨pte', rfl⟩
  · exact ⟨pte, h⟩

theorem restoreFixedDestinationLocked_spec {K : Multiset Handle} {l : List (ℕ × Pte)}
    (hl : Collects g (d * pageSize) (d * pageSize + m * pageSize) l)
    (hsettled : ∀ p pte, g p = some pte → pte.Settled) (hK : ∀ e ∈ l, ref e.2.frame ∈ K)
    (hk : k - a ≤ m) (hlimit : d * pageSize + m * pageSize ≤ userAddressLimit)
    (ht : t.Has (movedBelow a d k g)) :
    Triple μ K ({lock (.space i)} + t.sites)
      (fun s ↦ Tlb.All (fun e ↦ g e.virtualPage = some e.translation) i s ∧ t.LockedResident μ s ∅)
      (restoreFixedDestinationLocked i t (d * pageSize) (m * pageSize) (l.map savedPage))
      (fun t' ↦ {lock (.space i)} + t'.sites)
      fun t' s ↦ t'.Has g ∧ Tlb.All (Agrees t') i s ∧ t'.LockedResident μ s ∅ := by
  intro s x w hKx hat ⟨htlb, hlocked⟩
  have hmem : ∀ e ∈ l, g e.1 = some e.2 := fun e he ↦ ((hl.mem e.1 e.2).1 he).1
  refine (restoreSaved_spec l ht hK (fun e he ↦ hsettled _ _ (hmem e he)) fun e he ↦ ?_).seq hat
    (add_comm _ _) (hKx.trans (le_add_left le_rfl)) hlocked ?_
  · obtain ⟨pte, hpte⟩ := movedBelow_some (a := a) (d := d) (k := k) (hmem e he)
    obtain ⟨q, hq⟩ := movedBelow_mem hpte
    exact ⟨pte, hpte, (hsettled q pte hq).present⟩
  intro t1 w1 hat1 hk1 ⟨hlocked1, hhas1⟩
  refine (sweepPages_spec (J := fun t s ↦ t.LockedResident μ s ∅)
    (fun p pte ↦ if p ∈ l.map Prod.fst then some pte else none) hhas1 hlimit
    fun k t g pte _ hg hk ↦ unmapUnsaved_spec hl.sorted hg hk).seq hat1 rfl zero_le hlocked1 ?_
  rintro ⟨status, t2⟩ w2 hat2 hk2 ⟨-, hhas2, hlocked2⟩
  have hrestored : t2.Has g := hhas2.congr (swept_restored hl hk)
  refine (Tlb.invalidateRange_spec _ _).seq hat2 (add_comm _ _) zero_le
    ((htlb.keeps hk1 (by simp)).keeps hk2 (by simp)) fun _ w3 hat3 hk3 htlb3 ↦ ?_
  refine ⟨hat3, hrestored, htlb3.mono fun e he ↦ ?_, hlocked2.keeps hk3 le_self_add⟩
  rw [Agrees, hrestored.pte]
  exact he.1

/-! ### Completing the move -/

/-- Whether the page `p` of the destination has an entry after the move. -/
def Filled (a d : ℕ) (limit : ℕ) (g : ℕ → Option Pte) (p : ℕ) : Prop :=
  p - d < limit ∧ (g (a + (p - d))).isSome = true

instance (a d limit : ℕ) (g : ℕ → Option Pte) (p : ℕ) : Decidable (Filled a d limit g p) :=
  inferInstanceAs (Decidable (_ ∧ _))

theorem unmapHole_spec (g0 : ℕ → Option Pte) {limit : ℕ} {pte : Pte} (ht : t.Has g)
    (hk : g k = some pte) (hsource : k - d < limit → g (a + (k - d)) = g0 (a + (k - d))) :
    Triple μ 0 t.sites (fun s ↦ t.LockedResident μ s ∅)
      (unmapHole (a * pageSize) (d * pageSize) (limit * pageSize) t (k * pageSize))
      (fun r ↦ r.2.sites)
      fun r s ↦ r.1 = .ok ∧ r.2.Has (Function.update g k
        (if Filled a d limit g0 k then some pte else none)) ∧ r.2.LockedResident μ s ∅ := by
  intro s x w hK hat h
  have hoffset : k * pageSize - d * pageSize = (k - d) * pageSize := (Nat.sub_mul k d _).symm
  have hfilled : (k * pageSize - d * pageSize < limit * pageSize ∧
      (t.lookup (a * pageSize + (k * pageSize - d * pageSize))).isSome = true) ↔
      Filled a d limit g0 k := by
    rw [hoffset, ← Nat.add_mul, ht.lookup_page, Nat.mul_lt_mul_right (by decide), Filled]
    exact and_congr_right fun hlt ↦ by rw [hsource hlt]
  unfold unmapHole
  by_cases hin : Filled a d limit g0 k
  · rw [if_pos (hfilled.2 hin), if_pos hin]
    refine ⟨hat, rfl, ht.congr fun p ↦ ?_, h⟩
    rw [← hk, Function.update_eq_self]
  · rw [if_neg (hfilled.not.2 hin), if_neg hin]
    refine (unmap_at ht (ht.user hk)).first hat h
      fun r w1 hat1 _ ⟨hlocked, hhas⟩ ↦ ?_
    exact ⟨hat1.congr (add_zero _), rfl, hhas, hlocked⟩

/-- The holes of the source have come to the destination, and the source is cleared. -/
theorem swept_filled (hapart : Apart a n d m) (p : ℕ) :
    swept (a * pageSize) (a * pageSize + n * pageSize) (fun _ _ ↦ none)
      (swept (d * pageSize) (d * pageSize + m * pageSize)
        (fun p pte ↦ if Filled a d (min n m) g p then some pte else none)
        (movedBelow a d (a + min n m) g)) p = moveResult a n d m g p := by
  have hsource := hapart p
  by_cases hp : a ≤ p ∧ p < a + n
  · rw [swept_of_within (within_pages.2 hp), Option.bind_fun_none, moveResult, if_neg (hsource hp),
      if_pos hp]
  rw [swept_of_not fun hin ↦ hp (within_pages.1 hin), moveResult]
  by_cases hdest : d ≤ p ∧ p < d + m
  · rw [swept_of_within (within_pages.2 hdest), if_pos hdest]
    by_cases hlt : p - d < n
    · rw [if_pos hlt, movedBelow, if_pos (by omega)]
      cases hg : g (a + (p - d)) with
      | none => simp [Filled, hg]
      | some pte =>
        have hfilled : Filled a d (min n m) g p := ⟨by omega, by rw [hg]; rfl⟩
        rw [Option.some_or, Option.bind_some, if_pos hfilled]
    · rw [if_neg hlt]
      have hnot : ¬Filled a d (min n m) g p := fun h ↦ hlt (h.1.trans_le (min_le_left _ _))
      simp only [hnot, if_false, Option.bind_fun_none]
  · rw [swept_of_not fun hin ↦ hdest (within_pages.1 hin), if_neg hdest, if_neg hp,
      movedBelow_of_not (by omega)]

theorem moveSavedLocked_spec {K : Multiset Handle} {l : List (ℕ × Pte)} (ht : t.Has g)
    (hl : Collects g (d * pageSize) (d * pageSize + m * pageSize) l)
    (hsettled : ∀ p pte, g p = some pte → pte.Settled) (hK : ∀ e ∈ l, ref e.2.frame ∈ K)
    (hapart : Apart a n d m) (ha : a * pageSize + n * pageSize ≤ userAddressLimit)
    (hd : d * pageSize + m * pageSize ≤ userAddressLimit) :
    Triple μ K ({lock (.space i)} + t.sites)
      (fun s ↦ Tlb.All (Agrees t) i s ∧ t.LockedResident μ s ∅)
      (moveSavedLocked i t (a * pageSize) (n * pageSize) (d * pageSize) (m * pageSize)
        (l.map savedPage)) (fun r ↦ {lock (.space i)} + r.2.sites)
      fun r s ↦ Tlb.All (Agrees r.2) i s ∧ r.2.LockedResident μ s ∅ ∧
        (r.1 = .ok ∧ r.2.Has (moveResult a n d m g) ∨ r.1 ≠ .ok ∧ r.2.Has g) := by
  intro s x w hKx hat ⟨htlb, hlocked⟩
  have htlb' : Tlb.All (fun e ↦ g e.virtualPage = some e.translation) i w.sys :=
    htlb.mono fun e he ↦ by rw [← ht.pte]; exact he
  have hapart' : Apart a (min n m) d (min n m) := fun p hp hq ↦ hapart p (by omega) (by omega)
  unfold moveSavedLocked
  dsimp only
  rw [Nat.mul_min_mul_right]
  refine (moveWalk_spec ht hsettled hapart' ?_ fun k t g pte ht hk hsettled ↦
    replaceBody_spec ht hk hsettled).seq hat (add_comm _ _) zero_le hlocked ?_
  · exact (Nat.add_le_add_left (Nat.mul_le_mul_right _ (min_le_left _ _)) _).trans ha
  rintro ⟨status, t1⟩ w1 hat1 hk1 ⟨hlocked1, ⟨rfl, hhas1⟩ | ⟨hbad, k, hk, hhas1⟩⟩
  swap
  · dsimp only at hat1 hhas1 hlocked1 hbad ⊢
    rw [if_pos hbad]
    refine (restoreFixedDestinationLocked_spec hl hsettled hK (by omega) hd hhas1).seq (F := 0) hat1
      ((add_comm _ _).trans (add_zero _).symm) (by simpa using hKx)
      ⟨htlb'.keeps hk1 (by simp), hlocked1⟩ ?_
    intro t2 w2 hat2 _ ⟨hhas2, htlb2, hlocked2⟩
    exact ⟨hat2.congr (add_zero _), htlb2, hlocked2, .inr ⟨hbad, hhas2⟩⟩
  dsimp only at hat1 hhas1 hlocked1 ⊢
  rw [if_neg (by simp)]
  -- while the holes are cleared, the source is as it was
  refine (sweepPages_spec (J := fun t s ↦ (∀ p, a ≤ p ∧ p < a + n → t.pte p = g p) ∧
    t.LockedResident μ s ∅) (fun p pte ↦ if Filled a d (min n m) g p then some pte else none)
    hhas1 hd fun k t g' pte hin hg hk ↦ ?_).seq hat1 rfl zero_le ⟨fun p hp ↦ ?_, hlocked1⟩ ?_
  · intro s x w hK hat ⟨hsource, hlocked⟩
    refine (unmapHole_spec g hg hk fun hlt ↦ ?_).tail (F := 0) hat (add_zero _).symm zero_le
      hlocked fun r w1 hat1 _ ⟨hok, hhas, hlocked1⟩ ↦ ?_
    · rw [← hg.pte]
      exact hsource _ (by omega)
    · refine ⟨hat1.congr (add_zero _), hok, hhas, fun p hp ↦ ?_, hlocked1⟩
      have hne : p ≠ k := fun heq ↦ hapart p hp (heq ▸ hin)
      rw [hhas.pte, Function.update_of_ne hne, ← hg.pte]
      exact hsource p hp
  · have := hapart p hp
    rw [hhas1.pte, movedBelow_of_not (by omega)]
  rintro ⟨status, t2⟩ w2 hat2 hk2 ⟨-, hhas2, -, hlocked2⟩
  refine (Tlb.invalidateRange_spec (d * pageSize) _).seq hat2 (add_comm _ _) zero_le
    ((htlb'.keeps hk1 (by simp)).keeps hk2 (by simp)) fun _ w3 hat3 hk3 htlb3 ↦ ?_
  have hagrees : Tlb.All (Agrees t2) i w3.sys := htlb3.mono fun e he ↦ by
    have hbeside := not_within hd (Nat.mul_mod_left _ _) he.2
    rw [Agrees, hhas2.pte, swept_of_not hbeside, movedBelow_of_not, he.1]
    intro hin
    exact hbeside (within_pages.2 (by omega))
  refine (unmapPagesLocked_spec hhas2 le_self_add ha (Nat.mul_mod_left _ _) ?_).first
    hat3 ⟨hagrees, hlocked2.keeps hk3 le_self_add⟩ ?_
  · rw [← Nat.add_mul]
    exact Nat.mul_mod_left _ _
  rintro t4 w4 hat4 - ⟨hhas4, htlb4, hlocked4⟩
  exact ⟨hat4.congr (add_zero _), htlb4, hlocked4, .inl ⟨rfl, hhas4.congr (swept_filled hapart)⟩⟩

theorem movePtesFixedLocked_spec (ht : t.Has g) (hsettled : ∀ p pte, g p = some pte → pte.Settled)
    (hapart : Apart a n d m) (ha : a * pageSize + n * pageSize ≤ userAddressLimit)
    (hd : d * pageSize + m * pageSize ≤ userAddressLimit) {p : Code (Status × PageTable)}
    (hp : movePtesFixedLocked i t (a * pageSize) (n * pageSize) (d * pageSize) (m * pageSize) = p) :
    Triple μ 0 ({lock (.space i)} + t.sites)
      (fun s ↦ Tlb.All (Agrees t) i s ∧ t.LockedResident μ s ∅) p
      (fun r ↦ {lock (.space i)} + r.2.sites)
      fun r s ↦ Tlb.All (Agrees r.2) i s ∧ r.2.LockedResident μ s ∅ ∧
        (r.1 = .ok ∧ r.2.Has (moveResult a n d m g) ∨ r.1 ≠ .ok ∧ r.2.Has g) := by
  intro s x w hK hat ⟨htlb, hlocked⟩
  rw [← hp]
  unfold movePtesFixedLocked
  generalize hpages : collectCopyPages t (d * pageSize) (d * pageSize + m * pageSize) = collect
  refine (collectCopyPages_spec ht hpages).aside hat trivial ?_
  rintro ⟨status, pages⟩ w1 hat1 hk1 hcollect
  have htlb1 := htlb.keeps hk1 (by simp)
  have hlocked1 := hlocked.keeps hk1 ((le_add_left le_rfl).trans le_self_add)
  dsimp only at hcollect ⊢
  rcases hcollect with ⟨rfl, l, rfl, hl⟩ | hbad
  swap
  · rw [if_pos hbad]
    exact ⟨hat1.congr (zero_add _), htlb1, hlocked1, .inr ⟨hbad, ht⟩⟩
  rw [if_neg (by simp)]
  have hrefs : ∀ e ∈ l, ref e.2.frame ∈ t.sites := fun e he ↦ by
    have hpte : t.pte e.1 = some e.2 := by rw [ht.pte, ((hl.mem e.1 e.2).1 he).1]
    exact Multiset.mem_of_le (Inv.pte_sites_le hpte) (Inv.ref_mem_sites e.2)
  refine (savePages_spec l [] hrefs).seq (F := {lock (.space i)} + t.sites) hat1 rfl
    ((le_add_left le_rfl).trans le_self_add) trivial ?_
  rintro ⟨pinned, saved⟩ w2 hat2 hk2 hsaved
  have htlb2 := htlb1.keeps hk2 (by simp)
  have hlocked2 := hlocked1.keeps hk2 ((le_add_left le_rfl).trans le_self_add)
  dsimp only at hat2 hsaved ⊢
  have hmove : Triple μ (savedSites saved) ({lock (.space i)} + t.sites)
      (fun s ↦ Tlb.All (Agrees t) i s ∧ t.LockedResident μ s ∅)
      (if pinned = true then moveSavedLocked i t (a * pageSize) (n * pageSize) (d * pageSize)
        (m * pageSize) saved else pure (.busy, t)) (fun r ↦ {lock (.space i)} + r.2.sites)
      fun r s ↦ Tlb.All (Agrees r.2) i s ∧ r.2.LockedResident μ s ∅ ∧
        (r.1 = .ok ∧ r.2.Has (moveResult a n d m g) ∨ r.1 ≠ .ok ∧ r.2.Has g) := by
    refine .ite (fun hpinned ↦ ?_) fun _ ↦ .pure rfl fun _ h ↦ ⟨h.1, h.2, .inr ⟨nofun, ht⟩⟩
    rw [hsaved hpinned, List.nil_append]
    exact moveSavedLocked_spec ht hl hsettled (fun e he ↦ ref_mem_savedSites he) hapart ha hd
  refine hmove.seq (F := savedSites saved) hat2 (add_comm _ _) le_self_add ⟨htlb2, hlocked2⟩ ?_
  rintro ⟨status, t3⟩ w3 hat3 hk3 ⟨htlb3, hlocked3, hres⟩
  refine (releaseSaved_spec saved).seq hat3 (add_comm _ _) zero_le trivial fun _ w4 hat4 hk4 _ ↦ ?_
  refine ⟨hat4.congr (zero_add _), htlb3.keeps hk4 (by simp), ?_, hres⟩
  exact hlocked3.keeps hk4 ((le_add_left le_rfl).trans le_self_add)

end Space

end MiniMM
