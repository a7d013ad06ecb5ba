import MiniMM.Spec.MemoryApi

/-!
# The specification of `minimm_mlock`

The pages are locked one by one. The entries as they were before are kept with a reference of their
own, so that a call that fails can bring them back.
-/

namespace MiniMM

open Handle Vma PageTable VmaSnapshot

namespace Space

variable {μ ν : Mode} {x : Multiset Handle} {i : SpaceId} {bad : Set ℕ} {c c' : Space}
  {t : PageTable} {g g0 : ℕ → Option Pte} {a k n m : ℕ} {pte : Pte} {s : Sys}

/-! ## The entries before the call -/

/-- What `minimm_memory_snapshot_mlock_pages_locked` takes down. -/
def mlockSaved (g : ℕ → Option Pte) : ℕ → ℕ → List (ℕ × Option Pte)
  | 0, _ => []
  | n + 1, a => (a * pageSize, g a) :: mlockSaved g n (a + 1)

/-- The references of the entries that are kept. -/
def savedRefs : List (ℕ × Option Pte) → Multiset Handle
  | [] => 0
  | e :: rest => e.2.elim 0 (fun pte ↦ {ref pte.frame}) + savedRefs rest

theorem mlockSaved_take (g : ℕ → Option Pte) (h : m ≤ n) (a : ℕ) :
    (mlockSaved g n a).take m = mlockSaved g m a := by
  induction n generalizing m a with
  | zero =>
    obtain rfl : m = 0 := by omega
    rfl
  | succ n ih =>
    cases m with
    | zero => rfl
    | succ m => exact congrArg _ (ih (by omega) (a + 1))

theorem savedRefs_take (l : List (ℕ × Option Pte)) (m : ℕ) : savedRefs (l.take m) ≤
    savedRefs l := by
  induction l generalizing m with
  | nil => simp
  | cons e rest ih =>
    cases m with
    | zero => exact zero_le
    | succ m => exact add_le_add_right (ih m) _

theorem snapshotMlockPages_spec (h : c.Wf) (n a : ℕ) :
    Triple μ c.sites 0 (fun _ ↦ True) (snapshotMlockPages c n (a * pageSize)) savedRefs
      fun l _ ↦ l = mlockSaved c.pageTable.pte n a := by
  induction n generalizing a with
  | zero => exact .pure rfl fun _ _ ↦ rfl
  | succ n ih =>
    have hnext : a * pageSize + pageSize = (a + 1) * pageSize := (Nat.succ_mul _ _).symm
    intro s x w hK hat _
    rw [snapshotMlockPages, h.pteAt_page, mlockSaved, hnext]
    cases hpte : c.pageTable.pte a with
    | none =>
      refine (ih (a + 1)).seq (F := 0) hat rfl (hK.trans (le_add_left le_rfl)) trivial ?_
      rintro _ w1 hat1 - rfl
      exact ⟨hat1.congr (by simp [savedRefs]), rfl⟩
    | some pte =>
      refine retain_spec.seq (F := 0) hat rfl
        ((ref_le hpte).trans (hK.trans (le_add_left le_rfl))) trivial fun _ w1 hat1 _ _ ↦ ?_
      refine (ih (a + 1)).seq (F := {ref pte.frame}) hat1 (by simp)
        (hK.trans (le_add_left le_rfl)) trivial ?_
      rintro _ w2 hat2 - rfl
      exact ⟨hat2.congr (add_comm _ _), rfl⟩

theorem releaseMlockSnapshots_spec (l : List (ℕ × Option Pte)) :
    Spends μ 0 (savedRefs l) (fun _ ↦ True) (releaseMlockSnapshots l) := by
  induction l with
  | nil => exact .pure rfl fun _ _ ↦ trivial
  | cons e rest ih =>
    obtain ⟨page, _ | pte⟩ := e
    · rw [releaseMlockSnapshots, savedRefs]
      simpa using ih
    · intro s x w hK hat _
      refine release_spec.seq (F := savedRefs rest) hat rfl zero_le trivial fun _ w1 hat1 _ _ ↦ ?_
      exact ih s x w1 hK (hat1.congr (zero_add _)) trivial

/-! ## Locking a page -/

/-- The entry with the `LOCKED` flag. -/
def lockedPte (pte : Pte) : Pte :=
  if pte.flags.locked then pte
  else revised pte pte.frame pte.protection { locked := true } {}

/-- The page is without a locked entry. -/
def Unlocked (g : ℕ → Option Pte) (k : ℕ) : Prop :=
  ∀ pte, g k = some pte → pte.flags.locked = false

theorem LockedResident.mono {bad' : Set ℕ} (h : t.LockedResident μ s bad) (hsub : bad ⊆ bad') :
    t.LockedResident μ s bad' :=
  fun hμ p pte hp hl hbad ↦ h hμ p pte hp hl fun hmem ↦ hbad (hsub hmem)

theorem Sound.mono {bad' : Set ℕ} (h : Sound μ i bad c s) (hsub : bad ⊆ bad') :
    Sound μ i bad' c s :=
  ⟨h.wf, h.bound, h.tlb, LockedResident.mono h.locked hsub⟩

theorem Sound.settle (h : Sound ν i bad c s) (hk : c.pageTable.pte k = some pte)
    (hres : s.store.resident pte.frame = true) : Sound ν i (bad \ {k}) c s := by
  refine ⟨h.wf, h.bound, h.tlb, fun hν p pte' hp hl hout ↦ ?_⟩
  by_cases hpk : p = k
  · subst hpk
    cases hk.symm.trans hp
    exact hres
  · exact h.locked hν p pte' hp hl fun hbad ↦ hout ⟨hbad, hpk⟩

/-- What the work on one page leaves. -/
structure MlockedEntry (k : ℕ) (c : Space) (r : Status × Space) : Prop where
  rest : c.setTable r.2.pageTable = r.2
  others : ∀ p, p ≠ k → r.2.pageTable.pte p = c.pageTable.pte p
  old : ∀ pte, c.pageTable.pte k = some pte → r.2.pageTable.pte k = some (lockedPte pte)
  fresh : r.1 = .ok → c.pageTable.pte k = none → ∃ pte, r.2.pageTable.pte k = some (lockedPte pte) ∧
    pte.flags.accessed = false ∧ pte.flags.dirty = false

/-- The space after the work on one page: the page is no longer in doubt, or the work has failed
and it may be. -/
def Settled (ν : Mode) (i : SpaceId) (bad : Set ℕ) (k : ℕ) (c : Space) (r : Status × Space)
    (s : Sys) : Prop :=
  r.1 = .ok ∧ Sound ν i (bad \ {k}) r.2 s ∨
    r.1 ≠ .ok ∧ Sound ν i (bad ∪ {p | p = k ∧ Unlocked c.pageTable.pte k}) r.2 s

theorem mlockEntry_spec (hk : c.pageTable.pte k = some pte) :
    Triple μ 0 ({lock (.space i)} + c.sites) (Sound ν i bad c) (mlockEntry i c (k * pageSize) pte)
      (fun r ↦ {lock (.space i)} + r.2.sites)
      fun r s ↦ Settled ν i bad k c r s ∧ MlockedEntry k c r := by
  intro s x w hK hat h
  have hpage : k * pageSize / pageSize = k := Nat.mul_div_cancel _ (by decide)
  unfold mlockEntry
  by_cases hlocked : pte.flags.locked = true
  · -- an entry that is locked already has its frame
    rw [hlocked]
    change Prog.wp (rules μ) (c.populatePageLocked (k * pageSize)) _ w
    refine Prog.wp_mono (populatePageLocked_spec s x w hK hat h) ?_
    rintro r w1 ⟨hat1, hsound, hpop, hres⟩
    rw [hpage] at hpop hres
    obtain ⟨t, ht⟩ := hpop.table
    refine ⟨hat1, ?_, by rw [ht]; rfl, hpop.others, fun pte' hpte' ↦ ?_, ?_⟩
    · by_cases hstatus : r.1 = .ok
      · exact .inl ⟨hstatus, hsound.settle (hpop.old _ hk) (hres hstatus _ hk)⟩
      · exact .inr ⟨hstatus, hsound.mono Set.subset_union_left⟩
    · cases hk.symm.trans hpte'
      rw [hpop.old _ hk, lockedPte, if_pos hlocked]
    · rw [hk]
      nofun
  rw [if_neg hlocked]
  have hunlocked : pte.flags.locked = false := by simpa using hlocked
  have hok : TableOk ν i (bad ∪ {k}) c.pageTable w.sys :=
    ⟨h.tlb, LockedResident.mono h.locked Set.subset_union_left⟩
  refine revise_seq (F := bindingSites c.bindings)
    (q := fun t ↦ (c.setTable t).populatePageLocked (k * pageSize)) h.wf.has hk rfl rfl rfl
    (fun _ ↦ Or.inr rfl) (fun t' ↦ ?_) hat (add_assoc _ _ _).symm hok
      fun t w1 hhas hat1 hk1 hok1 ↦ ?_
  · rw [hunlocked]
    rfl
  have hself := hhas.pte k
  rw [Function.update_self] at hself
  have hsound1 : Sound ν i (bad ∪ {k}) (c.setTable t) w1.sys :=
    .setTable h.wf (h.bound.keeps hk1) hhas
      (Fits.flagged h.wf.entry hk ⟨rfl, rfl⟩ ⟨rfl, rfl, rfl⟩) hok1
  have hnew : lockedPte pte = revised pte pte.frame pte.protection { locked := true } {} :=
    if_neg hlocked
  have hat1' : At μ s x ({lock (.space i)} + (c.setTable t).sites) w1 :=
    hat1.congr (add_assoc _ _ _)
  refine populatePageLocked_spec.tail (F := 0) hat1' (add_zero _).symm zero_le hsound1 ?_
  rintro r w2 hat2 - ⟨hsound2, hpop, hres⟩
  rw [hpage] at hpop hres
  obtain ⟨t2, ht2⟩ := hpop.table
  have hsame : r.2.pageTable.pte k = some (lockedPte pte) := by
    rw [hnew]
    exact hpop.old _ hself
  refine ⟨hat2.congr (add_zero _), ?_, by rw [ht2]; rfl, fun p hp ↦ ?_, fun pte' hpte' ↦ ?_, ?_⟩
  · by_cases hstatus : r.1 = .ok
    · have hsettled := hsound2.settle hsame (by rw [hnew]; exact hres hstatus _ hself)
      rw [Set.union_sdiff_right] at hsettled
      exact .inl ⟨hstatus, hsettled⟩
    · refine .inr ⟨hstatus, hsound2.mono (Set.union_subset_union_right _ fun p hp ↦ ?_)⟩
      refine ⟨hp, fun pte' hpte' ↦ ?_⟩
      cases hk.symm.trans hpte'
      exact hunlocked
  · rw [hpop.others p hp]
    exact (hhas.pte p).trans (Function.update_of_ne hp _ _)
  · cases hk.symm.trans hpte'
    exact hsame
  · rw [hk]
    nofun

theorem MlockedEntry.failed {status : Status} (hbad : status ≠ .ok)
    (hk : c.pageTable.pte k = none) (hp : Populated c k (status, c')) :
    MlockedEntry k c (status, c') := by
  obtain ⟨t, ht⟩ := hp.table
  dsimp only at ht
  refine ⟨by rw [ht]; rfl, hp.others, fun pte hpte ↦ ?_, fun hok ↦ absurd hok hbad⟩
  rw [hk] at hpte
  cases hpte

theorem mlockPage_spec :
    Triple μ 0 ({lock (.space i)} + c.sites) (Sound ν i bad c) (mlockPage i c (k * pageSize))
      (fun r ↦ {lock (.space i)} + r.2.sites)
      fun r s ↦ Settled ν i bad k c r s ∧ MlockedEntry k c r := by
  intro s x w hK hat h
  have hpage : k * pageSize / pageSize = k := Nat.mul_div_cancel _ (by decide)
  unfold mlockPage
  rw [h.wf.pteAt_page]
  cases hpte : c.pageTable.pte k with
  | some pte => exact mlockEntry_spec hpte s x w hK hat h
  | none =>
    dsimp only
    refine populatePageLocked_spec.first hat h ?_
    rintro ⟨status, c1⟩ w1 hat1 - ⟨h1, hpop, -⟩
    rw [hpage] at hpop
    rw [add_zero] at hat1
    dsimp only at hat1 h1 ⊢
    by_cases hstatus : status ≠ .ok
    · rw [if_pos hstatus]
      exact ⟨hat1, .inr ⟨hstatus, h1.mono Set.subset_union_left⟩, .failed hstatus hpte hpop⟩
    rw [if_neg hstatus, h1.wf.pteAt_page]
    obtain ⟨pte, hnew⟩ := Option.isSome_iff_exists.1 (hpop.present (not_not.1 hstatus))
    obtain ⟨haccessed, hdirty, hunlocked⟩ := hpop.fresh pte hpte hnew
    dsimp only at hnew
    rw [hnew]
    dsimp only
    refine (mlockEntry_spec hnew).tail (F := 0) hat1 (add_zero _).symm zero_le h1
      fun r w2 hat2 _ ⟨hsettled, hentry⟩ ↦ ?_
    obtain ⟨t, ht⟩ := hpop.table
    dsimp only at ht
    subst ht
    refine ⟨hat2.congr (add_zero _), ?_, hentry.rest, fun p hp ↦ ?_, fun pte' hpte' ↦ ?_,
      fun _ _ ↦ ⟨pte, hentry.old pte hnew, haccessed, hdirty⟩⟩
    · refine hsettled.imp_right fun ⟨hbad, hsound⟩ ↦
        ⟨hbad, hsound.mono (Set.union_subset_union_right _ fun p hp ↦ ?_)⟩
      refine ⟨hp.1, fun pte' hpte' ↦ ?_⟩
      rw [hpte] at hpte'
      cases hpte'
    · exact (hentry.others p hp).trans (hpop.others p hp)
    · rw [hpte] at hpte'
      cases hpte'

/-! ## The loop -/

/-- The pages `[a, a + n)` are locked. -/
structure Mlocked (a n : ℕ) (c c' : Space) : Prop where
  rest : c.setTable c'.pageTable = c'
  others : ∀ p, ¬(a ≤ p ∧ p < a + n) → c'.pageTable.pte p = c.pageTable.pte p
  old : ∀ p pte, a ≤ p ∧ p < a + n → c.pageTable.pte p = some pte →
    c'.pageTable.pte p = some (lockedPte pte)
  fresh : ∀ p, a ≤ p ∧ p < a + n → c.pageTable.pte p = none →
    ∃ pte, c'.pageTable.pte p = some (lockedPte pte) ∧
      pte.flags.accessed = false ∧ pte.flags.dirty = false

/-- Entries in `[a, a + n)` may have changed, but none is gone. -/
structure Touched (a n : ℕ) (c c' : Space) : Prop where
  rest : c.setTable c'.pageTable = c'
  others : ∀ p, ¬(a ≤ p ∧ p < a + n) → c'.pageTable.pte p = c.pageTable.pte p
  present : ∀ p, (c.pageTable.pte p).isSome = true → (c'.pageTable.pte p).isSome = true

theorem Mlocked.refl (a : ℕ) (c : Space) : Mlocked a 0 c c :=
  ⟨rfl, fun _ _ ↦ rfl, fun _ _ hp ↦ by omega, fun _ hp ↦ by omega⟩

theorem MlockedEntry.touched {r : Status × Space} (h : MlockedEntry k c r) : Touched k 1 c r.2 := by
  refine ⟨h.rest, fun p hp ↦ h.others p (by omega), fun p hp ↦ ?_⟩
  by_cases hpk : p = k
  · subst hpk
    obtain ⟨pte, hpte⟩ := Option.isSome_iff_exists.1 hp
    rw [h.old pte hpte]
    rfl
  · rw [h.others p hpk, hp]

theorem Touched.cons {c1 : Space} (h : Touched a 1 c c1) (h' : Touched (a + 1) n c1 c') :
    Touched a (n + 1) c c' := by
  refine ⟨?_, fun p hp ↦ ?_, fun p hp ↦ h'.present p (h.present p hp)⟩
  · rw [← h'.rest, ← h.rest]
    rfl
  · rw [h'.others p (by omega), h.others p (by omega)]

theorem MlockedEntry.cons {r : Status × Space} (h : MlockedEntry a c r) (hok : r.1 = .ok)
    (h' : Mlocked (a + 1) n r.2 c') : Mlocked a (n + 1) c c' := by
  refine ⟨?_, fun p hp ↦ ?_, fun p pte hp hpte ↦ ?_, fun p hp hnone ↦ ?_⟩
  · rw [← h'.rest, ← h.rest]
    rfl
  · rw [h'.others p (by omega), h.others p (by omega)]
  · by_cases hpa : p = a
    · subst hpa
      rw [h'.others p (by omega)]
      exact h.old pte hpte
    · exact h'.old p pte (by omega) (by rw [h.others p hpa, hpte])
  · by_cases hpa : p = a
    · subst hpa
      rw [h'.others p (by omega)]
      exact h.fresh hok hnone
    · exact h'.fresh p (by omega) (by rw [h.others p hpa, hnone])

/-- What the loop of `minimm_mlock` leaves: none of its pages is in doubt, or it has failed at one
of them. -/
def MlockOutcome (ν : Mode) (i : SpaceId) (bad : Set ℕ) (a n attempted : ℕ) (c : Space)
    (r : Status × ℕ × Space) (s : Sys) : Prop :=
  r.1 = .ok ∧ Sound ν i (bad \ {p | a ≤ p ∧ p < a + n}) r.2.2 s ∧ Mlocked a n c r.2.2 ∨
    r.1 ≠ .ok ∧ ∃ m ≤ n, r.2.1 = attempted + m ∧ Touched a m c r.2.2 ∧
      Sound ν i (bad ∪ {p | (a ≤ p ∧ p < a + m) ∧ Unlocked c.pageTable.pte p}) r.2.2 s

theorem mlockLoop_spec (n : ℕ) (attempted : ℕ) :
    Triple μ 0 ({lock (.space i)} + c.sites) (Sound ν i bad c)
      (mlockLoop i n c (a * pageSize) attempted) (fun r ↦ {lock (.space i)} + r.2.2.sites)
      fun r s ↦ MlockOutcome ν i bad a n attempted c r s := by
  induction n generalizing c a attempted bad with
  | zero =>
    refine .pure rfl fun _ h ↦ .inl ⟨rfl, h.mono fun p hp ↦ ⟨hp, ?_⟩, .refl a c⟩
    rintro ⟨hle, hlt⟩
    omega
  | succ n ih =>
    have hnext : a * pageSize + pageSize = (a + 1) * pageSize := (Nat.succ_mul _ _).symm
    intro s x w hK hat h
    rw [mlockLoop]
    refine mlockPage_spec.first hat h ?_
    rintro ⟨status, c1⟩ w1 hat1 - ⟨hsettled, hentry⟩
    rw [add_zero] at hat1
    dsimp only at hat1 ⊢
    rcases hsettled with ⟨hok, hsound⟩ | ⟨hbad, hsound⟩
    · rw [if_neg (not_not.2 hok), hnext]
      refine (ih (attempted + 1)).tail (F := 0) hat1 (add_zero _).symm zero_le hsound
        fun r w2 hat2 _ hout ↦ ⟨hat2.congr (add_zero _), ?_⟩
      rcases hout with ⟨hr, hsound2, hlocked⟩ | ⟨hr, m, hm, hcount, htouched, hsound2⟩
      · refine .inl ⟨hr, hsound2.mono ?_, hentry.cons hok hlocked⟩
        rintro p ⟨⟨hp, hpa⟩, hout⟩
        refine ⟨hp, fun hin ↦ hout ⟨?_, ?_⟩⟩
        · exact Nat.lt_of_le_of_ne hin.1 (Ne.symm hpa)
        · have := hin.2
          omega
      · refine .inr ⟨hr, m + 1, by omega, by omega, hentry.touched.cons htouched,
          hsound2.mono (Set.union_subset_union Set.sdiff_subset ?_)⟩
        rintro p ⟨hp, hunlocked⟩
        refine ⟨by omega, fun pte hpte ↦ hunlocked pte ?_⟩
        exact (hentry.others p (by omega)).trans hpte
    · rw [if_pos hbad]
      refine ⟨hat1, .inr ⟨hbad, 1, by omega, rfl, hentry.touched,
        hsound.mono (Set.union_subset_union_right _ ?_)⟩⟩
      rintro p ⟨rfl, hunlocked⟩
      exact ⟨by omega, hunlocked⟩

/-! ## Bringing the entries back -/

theorem unmap_ok (ht : t.Has g) (hk : g k = some pte) :
    Code.Returns (t.unmap (k * pageSize)) fun r ↦ r.1 = .ok := by
  obtain ⟨m, hm⟩ := ht.good
  have hmem : k ∈ m := Finmap.mem_of_lookup_eq_some (b := pte) (by rw [← hm.pte, ht.pte, hk])
  have hpage : k * pageSize / pageSize = k := Nat.mul_div_cancel _ (by decide)
  refine (unmap_follows (fun _ ↦ True) hm _).mono ?_
  rintro r (⟨hr, -⟩ | ⟨hmap, -⟩)
  · simp only [Update.perform, pageAddressIsValid_page (ht.user hk), hpage, Bool.true_eq_false,
      if_false] at hr
    rw [hr, if_pos hmem]
  · cases hmap

theorem restoreMlockPage_spec (ht : t.Has g) (hk : k * pageSize < userAddressLimit)
    (hsettled : ∀ pte, g0 k = some pte → pte.Settled) (hg : ∀ pte, g k = some pte → pte.Settled)
    (hpresent : (g0 k).isSome = true → (g k).isSome = true) :
    Triple μ ((g0 k).elim 0 fun pte ↦ {ref pte.frame}) t.sites (fun s ↦ t.LockedResident μ s bad)
      (restoreMlockPage t (k * pageSize) (g0 k)) (fun r ↦ r.2.sites)
      fun r s ↦ r.2.LockedResident μ s bad ∧ r.1 = .ok ∧ r.2.Has (Function.update g k (g0 k)) := by
  cases hsaved : g0 k with
  | none =>
    rw [restoreMlockPage]
    by_cases hsome : (t.lookup (k * pageSize)).isSome = true
    · rw [if_pos hsome]
      rw [ht.lookup_page] at hsome
      obtain ⟨pte, hpte⟩ := Option.isSome_iff_exists.1 hsome
      refine ((unmap_at ht hk).returns (unmap_ok ht hpte)).post ?_
      rintro r s ⟨⟨hlocked, hhas⟩, hok⟩
      exact ⟨hlocked, hok, hhas⟩
    · rw [if_neg hsome]
      refine .pure rfl fun s h ↦ ⟨h, rfl, ht.congr fun p ↦ ?_⟩
      rw [ht.lookup_page, Option.not_isSome_iff_eq_none] at hsome
      rw [← hsome, Function.update_eq_self]
  | some pte =>
    rw [hsaved] at hpresent
    obtain ⟨old, hold⟩ := Option.isSome_iff_exists.1 (hpresent rfl)
    rw [restoreMlockPage, ht.lookup_page, hold, if_neg (by simp)]
    have hrevised := (hsettled pte hsaved).revised (hg old hold).present
    refine (replaceFrame_at ht hold (.inl ?_) rfl rfl ?_).post ?_
    · simp
    · simp [PteFlags.meets, PteFlags.restore]
    · rintro r s ⟨hlocked, hok, hhas⟩
      rw [hrevised] at hhas
      exact ⟨hlocked, hok, hhas⟩

theorem settled_update {entry : Option Pte} (hg : ∀ p pte, g p = some pte → pte.Settled)
    (hentry : ∀ pte, entry = some pte → pte.Settled) (p : ℕ) (pte : Pte)
    (hp : Function.update g k entry p = some pte) : pte.Settled := by
  by_cases hpk : p = k
  · subst hpk
    rw [Function.update_self] at hp
    exact hentry pte hp
  · rw [Function.update_of_ne hpk] at hp
    exact hg p pte hp

theorem LockedResident.next
    (h : t.LockedResident μ s {p | (a ≤ p ∧ p < a + (m + 1)) ∧ Unlocked g0 p})
    (ha : t.pte a = g0 a) :
    t.LockedResident μ s {p | (a + 1 ≤ p ∧ p < a + 1 + m) ∧ Unlocked g0 p} := by
  intro hμ p pte hp hl hbad
  refine h hμ p pte hp hl fun ⟨hin, hunlocked⟩ ↦ ?_
  by_cases hpa : p = a
  · subst hpa
    rw [hunlocked pte (ha.symm.trans hp)] at hl
    cases hl
  · exact hbad ⟨by omega, hunlocked⟩

/-- The entries before the call in `[a, a + m)` and those of `g` beside it. -/
def restored (a m : ℕ) (g0 g : ℕ → Option Pte) (p : ℕ) : Option Pte :=
  if a ≤ p ∧ p < a + m then g0 p else g p

theorem restored_succ (p : ℕ) :
    restored (a + 1) m g0 (Function.update g a (g0 a)) p = restored a (m + 1) g0 g p := by
  simp only [restored]
  by_cases hpa : p = a
  · subst hpa
    rw [if_neg (by omega), if_pos (by omega), Function.update_self]
  · rw [Function.update_of_ne hpa]
    exact if_congr (by omega) rfl rfl

theorem restoreMlockPages_spec (hsettled : ∀ p pte, g0 p = some pte → pte.Settled) (m : ℕ)
    (ha : (a + m) * pageSize ≤ userAddressLimit) (ht : t.Has g)
    (hg : ∀ p pte, g p = some pte → pte.Settled)
    (hpresent : ∀ p, (g0 p).isSome = true → (g p).isSome = true) :
    Triple μ (savedRefs (mlockSaved g0 m a)) ({lock (.space i)} + t.sites)
      (TableOk μ i {p | (a ≤ p ∧ p < a + m) ∧ Unlocked g0 p} t)
      (restoreMlockPages i (mlockSaved g0 m a) t .ok) (fun r ↦ {lock (.space i)} + r.2.sites)
      fun r s ↦ r.1 = .ok ∧ r.2.Has (restored a m g0 g) ∧ TableOk μ i ∅ r.2 s := by
  induction m generalizing a t g with
  | zero =>
    refine .pure rfl fun s h ↦ ⟨rfl, ht.congr fun p ↦ ?_, h.1, LockedResident.mono h.2 ?_⟩
    · exact (if_neg (by omega)).symm
    · rintro p ⟨hp, -⟩
      omega
  | succ m ih =>
    intro s x w hK hat hok
    rw [mlockSaved, savedRefs] at hK
    rw [mlockSaved, restoreMlockPages, ht.lookup_page]
    have hlast : (a + 1 + m) * pageSize ≤ userAddressLimit := by rwa [Nat.add_right_comm]
    have hlt : a * pageSize < userAddressLimit := by
      refine lt_of_lt_of_le (Nat.mul_lt_mul_of_pos_right ?_ (by decide)) ha
      omega
    have hrest : ∀ {t' : PageTable} {w' : World},
        t'.Has (Function.update g a (g0 a)) → At μ s x ({lock (.space i)} + t'.sites) w' →
        Tlb.All (Agrees t') i w'.sys →
        t'.LockedResident μ w'.sys {p | (a ≤ p ∧ p < a + (m + 1)) ∧ Unlocked g0 p} →
        Prog.wp (rules μ) (restoreMlockPages i (mlockSaved g0 m (a + 1)) t' .ok)
          (fun r w'' ↦ At μ s x ({lock (.space i)} + r.2.sites) w'' ∧ (r.1 = .ok ∧
            r.2.Has (restored a (m + 1) g0 g) ∧ TableOk μ i ∅ r.2 w''.sys)) w' := by
      intro t' w' hhas hat' htlb hlocked
      have hself := hhas.pte a
      rw [Function.update_self] at hself
      refine (ih hlast hhas (settled_update hg (hsettled a)) fun p hp ↦ ?_).tail (F := 0) hat'
        (add_zero _).symm ((le_add_left le_rfl).trans (hK.trans (le_add_left le_rfl)))
        ⟨htlb, LockedResident.next hlocked hself⟩ fun r w'' hat'' _ ⟨hr, hhas'', hok''⟩ ↦ ?_
      · by_cases hpa : p = a
        · subst hpa
          rwa [Function.update_self]
        · rw [Function.update_of_ne hpa]
          exact hpresent p hp
      · exact ⟨hat''.congr (add_zero _), hr, hhas''.congr restored_succ, hok''⟩
    by_cases hsame : (g0 a).isSome = true ∧ g a = g0 a
    · rw [if_pos hsame]
      refine hrest (ht.congr fun p ↦ ?_) hat hok.1 hok.2
      rw [← hsame.2, Function.update_eq_self]
    rw [if_neg hsame]
    refine (Tlb.invalidatePage_spec _).seq hat rfl zero_le hok.1 fun _ w1 hat1 hk1 htlb1 ↦ ?_
    refine (restoreMlockPage_spec ht hlt (hsettled a) (hg a) (hpresent a)).seq
      (F := {lock (.space i)}) hat1 (add_comm _ _)
      ((le_self_add.trans hK).trans (le_add_left le_rfl)) (hok.2.keeps hk1 le_self_add) ?_
    rintro ⟨status, t'⟩ w2 hat2 hk2 ⟨hlocked2, hstatus, hhas⟩
    dsimp only at hstatus hhas hlocked2 hat2 ⊢
    subst hstatus
    refine hrest hhas (hat2.congr (add_comm _ _)) ?_ hlocked2
    refine (htlb1.keeps hk2 (by simp)).mono fun e he ↦ ?_
    have hne := he.2 hlt
    rw [Nat.mul_div_cancel _ (by decide)] at hne
    rw [Agrees, hhas.pte, Function.update_of_ne hne, ← ht.pte]
    exact he.1

/-! ## The call -/

theorem restored_touched (h : Touched a m c c') (p : ℕ) :
    restored a m c.pageTable.pte c'.pageTable.pte p = c.pageTable.pte p := by
  rw [restored]
  split_ifs with hp
  · rfl
  · exact h.others p hp

theorem lockedPte_locked (pte : Pte) : (lockedPte pte).flags.locked = true := by
  unfold lockedPte
  split_ifs with hlocked
  · exact hlocked
  · simp [revised, PteFlags.update]

theorem Mlocked.locked {p : ℕ} (h : Mlocked a n c c') (hp : a ≤ p ∧ p < a + n) :
    ∃ pte, c'.pageTable.pte p = some pte ∧ pte.flags.locked = true := by
  cases hpte : c.pageTable.pte p with
  | none =>
    obtain ⟨pte, hnew, -⟩ := h.fresh p hp hpte
    exact ⟨_, hnew, lockedPte_locked pte⟩
  | some pte => exact ⟨_, h.old p pte hp hpte, lockedPte_locked pte⟩

/-- The frames of the pages `[a, a + n)` are resident. -/
def Resident (a n : ℕ) (c : Space) (s : Sys) : Prop :=
  ∀ p pte, a ≤ p ∧ p < a + n → c.pageTable.pte p = some pte →
    s.store.resident pte.frame = true

/-- The mode in which every locked entry is watched. -/
def watched : Mode := ⟨true, true⟩

theorem Sound.watch (h : Sound μ i bad c s) : Sound watched i Set.univ c s :=
  ⟨h.wf, h.bound, h.tlb, fun _ _ _ _ _ hout ↦ absurd trivial hout⟩

theorem Mlocked.resident (h : Mlocked a n c c')
    (hsound : Sound watched i (Set.univ \ {p | a ≤ p ∧ p < a + n}) c' s) :
    c'.Resident a n s := by
  intro p pte hp hpte
  obtain ⟨pte', hpte', hlocked⟩ := h.locked hp
  cases hpte.symm.trans hpte'
  exact hsound.locked rfl p pte hpte hlocked fun hout ↦ hout.2 hp

theorem mlockLocked_spec {r : MemoryRange} (hlt : r.start < r.stop)
    (hlimit : r.stop ≤ userAddressLimit) (hstart : r.start % pageSize = 0)
    (hstop : r.stop % pageSize = 0) :
    Works μ 0 i c (mlockLocked i r c) fun q s ↦
      q.1 = .ok ∧ Mlocked (r.start / pageSize) r.pageCount c q.2 ∧
          q.2.Resident (r.start / pageSize) r.pageCount s ∨
        q.1 ≠ .ok ∧ Unchanged c q.2 := by
  obtain ⟨start, stop⟩ := r
  dsimp only at hlt hlimit hstart hstop ⊢
  obtain ⟨a, rfl⟩ : ∃ a, start = a * pageSize :=
    ⟨_, (Nat.div_mul_cancel (Nat.dvd_of_mod_eq_zero hstart)).symm⟩
  obtain ⟨b, rfl⟩ : ∃ b, stop = b * pageSize :=
    ⟨_, (Nat.div_mul_cancel (Nat.dvd_of_mod_eq_zero hstop)).symm⟩
  have hab : a < b := Nat.lt_of_mul_lt_mul_right hlt
  have hcount : MemoryRange.pageCount ⟨a * pageSize, b * pageSize⟩ = b - a := by
    rw [MemoryRange.pageCount, ← Nat.sub_mul, Nat.mul_div_cancel _ (by decide)]
  intro s x w hK hat h
  unfold mlockLocked
  dsimp only
  rw [hcount, Nat.mul_div_cancel _ (by decide)]
  refine (snapshotMlockPages_spec h.wf (b - a) a).seq hat (zero_add _).symm
    ((le_add_left le_rfl).trans le_self_add) trivial ?_
  rintro _ w1 hat1 hk1 rfl
  have h1 := h.keeps_sites hk1 le_rfl
  have hrelease : ∀ {status : Status} {c' : Space} {w' : World},
      At μ s x
        ({lock (.space i)} + c'.sites + savedRefs (mlockSaved c.pageTable.pte (b - a) a)) w' →
      Sound μ i ∅ c' w'.sys →
      (status = .ok ∧ Mlocked a (b - a) c c' ∧
          Sound watched i (Set.univ \ {p | a ≤ p ∧ p < a + (b - a)}) c' w'.sys ∨
        status ≠ .ok ∧ Unchanged c c') →
      Prog.wp (rules μ) (do
          releaseMlockSnapshots (mlockSaved c.pageTable.pte (b - a) a)
          Pure.pure (status, c'))
        (fun q w'' ↦ At μ s x ({lock (.space i)} + q.2.sites) w'' ∧ (Sound μ i ∅ q.2 w''.sys ∧
          (q.1 = .ok ∧ Mlocked a (b - a) c q.2 ∧ q.2.Resident a (b - a) w''.sys ∨
            q.1 ≠ .ok ∧ Unchanged c q.2))) w' := by
    intro status c' w' hat' h' hout
    refine (releaseMlockSnapshots_spec _).seq hat' (add_comm _ _) zero_le trivial
      fun _ w'' hat'' hk'' _ ↦ ⟨hat''.congr (zero_add _), h'.keeps_sites hk'' le_rfl, ?_⟩
    refine hout.imp_left ?_
    rintro ⟨hok, hlocked, hwatched⟩
    exact ⟨hok, hlocked, hlocked.resident (hwatched.keeps_sites hk'' le_rfl)⟩
  -- the loop is followed twice: for the order of the space, and for the pages it leaves resident
  refine ((mlockLoop_spec (b - a) 0).and (mlockLoop_spec (ν := watched) (b - a) 0)).seq hat1
    (add_comm _ _) zero_le ⟨h1, h1.watch⟩ ?_
  rintro ⟨status, attempted, c2⟩ w2 hat2 - ⟨hout, hwatched⟩
  dsimp only at hat2 ⊢
  rcases hout with ⟨hok, hsound, hlocked⟩ | ⟨hbad, m, hm, hattempted, htouched, hsound⟩
  · dsimp only at hok hsound hlocked
    rw [mlockRollback, if_neg (not_not.2 hok)]
    obtain ⟨-, hwatched, -⟩ := hwatched.resolve_right fun hbad ↦ hbad.1 hok
    exact hrelease hat2 (hsound.mono Set.sdiff_subset) (.inl ⟨rfl, hlocked, hwatched⟩)
  · dsimp only at hbad hattempted htouched hsound
    rw [Set.empty_union] at hsound
    rw [zero_add] at hattempted
    subst hattempted
    rw [mlockRollback, if_pos hbad, mlockSaved_take _ hm, Prog.bind_assoc]
    have hroom : (a + attempted) * pageSize ≤ userAddressLimit :=
      (Nat.mul_le_mul_right _ (by omega)).trans hlimit
    refine (restoreMlockPages_spec (fun p pte hp ↦ h.wf.settled hp) attempted hroom hsound.wf.has
      (fun p pte hp ↦ hsound.wf.settled hp) htouched.present).seq
      (F := bindingSites c2.bindings + savedRefs (mlockSaved c.pageTable.pte (b - a) a)) hat2
      (by rw [sites_eq]; ac_rfl) ?_ hsound.tableOk ?_
    · refine le_trans ?_ (le_trans (le_add_left le_rfl) le_self_add)
      rw [← mlockSaved_take _ hm]
      exact savedRefs_take _ _
    rintro ⟨rollback, t⟩ w3 hat3 hk3 ⟨hrollback, hhas, hok3⟩
    dsimp only at hrollback hhas hok3 hat3 ⊢
    subst hrollback
    have hhas' := hhas.congr (restored_touched htouched)
    rw [← htouched.rest] at hat3 hsound ⊢
    refine hrelease (hat3.congr ?_) ?_ (.inr ⟨hbad, hhas'.pte, rfl⟩)
    · rw [sites_eq]
      change _ = _ + (t.sites + bindingSites _) + _
      ac_rfl
    · have hbound : c.Bound w3.sys := hsound.bound.keeps hk3
      exact Sound.same (c := c) h.wf hbound hhas' hok3.1 hok3.2

/-- After a call that has succeeded the pages are locked. -/
def RangeLocked (address length : ℕ) (r : Status × Space) : Prop :=
  r.1 = .ok → ∀ a, address ≤ a → a < address + length →
    ∃ pte, r.2.pteAt a = some pte ∧ pte.flags.locked = true

theorem Mlocked.rangeLocked {r : MemoryRange} {address length : ℕ} (h : c'.Wf)
    (hlocked : Mlocked (r.start / pageSize) r.pageCount c c') (hstart : r.start % pageSize = 0)
    (hstop : r.stop % pageSize = 0) (hrange : r.start ≤ address ∧ address + length ≤ r.stop) :
    RangeLocked address length (.ok, c') := by
  intro _ p hp hlt
  rw [pteAt, h.has.lookup]
  refine hlocked.locked ?_
  rw [MemoryRange.pageCount]
  simp only [pageSize] at *
  omega

theorem mlock_locks (address length : ℕ) :
    Triple μ 0 0 (fun s ↦ i < s.nextSpace) (mlock i address length) (fun _ ↦ 0)
      fun r s ↦ r = .ok → length ≠ 0 →
        s.held (.space i) = false ∧ RangeLocked address length (r, s.space i) := by
  refine .ite (fun hlength ↦ ?_) fun _ ↦ ?_
  · exact (memoryValidateEmptyRange_spec _ _).conseq (fun _ _ ↦ trivial) (fun _ ↦ rfl)
      fun _ _ _ _ hne ↦ absurd hlength hne
  split
  · exact .pure rfl fun _ _ h ↦ by cases h
  next r hr =>
  obtain ⟨hrange, hlt, hlimit, hstart, hstop⟩ := memoryPrepareLockRange_range hr
  intro s x w hK hat h
  refine malloc_spec.next hat trivial fun allocated w1 hat1 hk1 _ ↦ ?_
  cases allocated with
  | false => exact ⟨hat1, fun h ↦ by cases h⟩
  | true =>
    have hcall : Triple μ 0 0 (fun s ↦ i < s.nextSpace) (withMappedRange i r id (mlockLocked i r))
        (fun _ ↦ 0) fun q s ↦ s.held (.space i) = false ∧
          ∃ _ : Space, RangeLocked address length (q, s.space i) := by
      refine withMappedRange_space (R := fun _ ↦ RangeLocked address length)
        (fun c status hbad hok ↦ absurd hok hbad) fun c _ ↦ ?_
      refine (mlockLocked_spec hlt hlimit hstart hstop).post ?_
      rintro ⟨status, c'⟩ s ⟨hsound, ⟨hok, hlocked, -⟩ | ⟨hbad, -⟩⟩
      · refine ⟨hsound, ?_⟩
        dsimp only at hok
        rw [hok]
        exact hlocked.rangeLocked hsound.wf hstart hstop hrange
      · exact ⟨hsound, fun hok ↦ absurd hok hbad⟩
    refine Prog.wp_mono (hcall s x w1 hK hat1 (h.trans_le hk1.nextSpace)) ?_
    rintro q w2 ⟨hat2, hfree, -, hlocked⟩
    exact ⟨hat2, fun _ _ ↦ ⟨hfree, hlocked⟩⟩

theorem mlock_spec (address length : ℕ) :
    Spends μ 0 0 (fun s ↦ i < s.nextSpace) (mlock i address length) :=
  (mlock_locks address length).post fun _ _ _ ↦ trivial

end Space

end MiniMM
