import MiniMM.Spec.Space

/-!
# Specifications of page faults
-/

namespace MiniMM

open Handle

theorem VmaSnapshot.lookup_page {s : VmaSnapshot} (h : s.Good) (a : ℕ) :
    s.lookup (a / pageSize * pageSize) = s.lookup a := by
  apply Option.ext
  intro v
  rw [lookup_eq_some h, lookup_eq_some h]
  refine and_congr_right fun hv ↦ ?_
  have hvalid := h.ordered.valid v hv
  have hstart := hvalid.startAligned
  have hstop := hvalid.stopAligned
  simp only [pageSize] at *
  omega

namespace Space

variable {μ ν : Mode} {K H x : Multiset Handle} {i : SpaceId} {bad : Set ℕ} {c : Space} {s s' : Sys}
  {b : BackingId} {g : ℕ → Option Pte} {t : PageTable} {v : Vma} {pte : Pte} {k address : ℕ}

theorem pageOf_eq (address : ℕ) : pageOf address = address / pageSize * pageSize := by
  simp only [pageOf, pageSize]
  omega

/-! ## Changing the table of a space -/

/-- Entries that agree with the mappings. -/
def Fits (c : Space) (g : ℕ → Option Pte) : Prop :=
  ∀ p pte, g p = some pte → ∃ v, c.vmaSnapshot.lookup (p * pageSize) = some v ∧ PteOk v pte

theorem Fits.insert (h : c.Fits g) (hv : c.vmaSnapshot.lookup (k * pageSize) = some v)
    (hpte : PteOk v pte) : c.Fits (Function.update g k (some pte)) := by
  intro p pte' hp
  by_cases hpk : p = k
  · subst hpk
    rw [Function.update_self] at hp
    cases hp
    exact ⟨v, hv, hpte⟩
  · rw [Function.update_of_ne hpk] at hp
    exact h p pte' hp

theorem Wf.setTable (h : c.Wf) (ht : t.Has g) (hg : c.Fits g) : (c.setTable t).Wf where
  snapshot := h.snapshot
  table := ht.good
  cookies := h.cookies
  nextCookie := h.nextCookie
  base := h.base
  entry p pte hp := hg p pte (by rw [← ht.pte]; exact hp)

theorem Wf.has (h : c.Wf) : c.pageTable.Has c.pageTable.pte := ⟨h.table, fun _ ↦ rfl⟩

theorem Wf.pteAt (h : c.Wf) (address : ℕ) :
    c.pteAt address = c.pageTable.pte (address / pageSize) := by
  rw [Space.pteAt, h.has.lookup]

theorem Wf.pteAt_page (h : c.Wf) (k : ℕ) : c.pteAt (k * pageSize) = c.pageTable.pte k := by
  rw [Space.pteAt, h.has.lookup_page]

theorem Wf.pteAt_pageOf (h : c.Wf) (address : ℕ) :
    c.pteAt (pageOf address) = c.pageTable.pte (address / pageSize) := by
  rw [pageOf_eq, h.pteAt_page]

theorem Wf.mapped {f : FrameId} {flags : PteFlags} {r : Status × PageTable} (h : c.Wf)
    (hr : PageTable.Mapped c.pageTable.pte (k * pageSize) f v.prot flags r)
    (hv : c.vmaSnapshot.lookup (k * pageSize) = some v)
    (hpte : PteOk v (PageTable.mappedPte f v.prot flags)) : (c.setTable r.2).Wf := by
  have hpage : k * pageSize / pageSize = k := Nat.mul_div_cancel _ (by decide)
  rcases hr with ⟨-, -, -, -, hhas⟩ | ⟨-, hhas⟩
  · rw [hpage] at hhas
    exact h.setTable hhas (Fits.insert h.entry hv hpte)
  · exact h.setTable hhas h.entry

theorem agrees_of_le (hle : ∀ p pte, c.pageTable.pte p = some pte → t.pte p = some pte)
    (h : Tlb.All (Agrees c.pageTable) i s) : Tlb.All (Agrees t) i s :=
  h.mono fun _ he ↦ hle _ _ he

theorem Sound.binding (h : Sound μ i bad c s) (hv : c.vmaSnapshot.lookup address = some v) :
    ∃ b ∈ c.bindings, Binding.find v.mappingCookie c.bindings = some b ∧
      (s.backingInfo b.backing).kind.shared = v.shared := by
  obtain ⟨-, b, hb, -, hkind⟩ := h.bound v ((VmaSnapshot.lookup_eq_some h.wf.snapshot).1 hv).1
  exact ⟨b, (Binding.mem_of_find hb).1, hb, hkind⟩

theorem table_le (c : Space) : c.pageTable.sites ≤ c.sites := le_self_add

theorem ref_le (h : c.pageTable.pte k = some pte) : {ref pte.frame} ≤ c.sites :=
  (Multiset.singleton_le.2 (Inv.ref_mem_sites pte)).trans
    ((Inv.pte_sites_le h).trans c.table_le)

theorem backing_le {b : Binding} (h : b ∈ c.bindings) : {backing b.backing} ≤ c.sites :=
  Multiset.singleton_le.2 (Inv.binding_mem h)

/-! ## Frames for pages without entries -/

theorem residentFrame_spec (offset : ℕ) :
    Triple μ 0 {backing b} (fun _ ↦ True) (residentFrame b offset)
      (fun r ↦ {backing b} + got r.1 r.2.1) fun _ _ ↦ True := by
  intro s x w hK hat _
  refine (Backing.getFrame_spec offset).first hat trivial ?_
  rintro ⟨status, f, created⟩ w1 hat1 - -
  rw [add_zero] at hat1
  dsimp only at hat1 ⊢
  split_ifs with hstatus
  · rw [got_of_ne hstatus] at hat1
    exact ⟨hat1.congr (by rw [got_of_ne hstatus]), trivial⟩
  rw [not_not.1 hstatus, got_ok] at hat1
  refine frameEnsureResident_spec.seq hat1 (zero_add _).symm
    ((le_add_left le_rfl).trans le_self_add) trivial ?_
  rintro ⟨status, pagedIn⟩ w2 hat2 - -
  rw [zero_add] at hat2
  dsimp only
  split_ifs with hstatus2
  · refine release_spec.seq hat2 (add_comm _ _) zero_le trivial fun _ w3 hat3 _ _ ↦ ?_
    exact ⟨hat3.congr (by rw [got_of_ne hstatus2, add_comm]), trivial⟩
  · exact ⟨hat2, trivial⟩

theorem pteOk_sharing {kind : BackingKind} {flags : PteFlags} (hkind : kind.shared = v.shared)
    (hcow : flags.cow = false) (hshared : flags.shared = false) (f : FrameId) (copied : Bool) :
    PteOk v (PageTable.mappedPte f v.prot (sharingFlags kind v.maxProt copied flags)) := by
  refine ⟨rfl, rfl, ?_, ?_⟩
  all_goals
    rw [PageTable.mappedPte, sharingFlags]
    by_cases hk : kind.shared = true
    · simp [hk, ← hkind, hcow]
    · rw [if_neg hk]
      rw [Bool.not_eq_true] at hk
      split_ifs with hprivate
      · simp [← hkind, hk, hprivate.2.1, hshared]
      · simp [← hkind, hk, hshared, hcow]

theorem PteOk.flagged {set clear : PteFlags} (h : PteOk v pte) (f : FrameId)
    (hset : set.cow = false ∧ set.shared = false)
    (hclear : clear.cow = false ∧ clear.shared = false ∧ clear.present = false) :
    PteOk v (PageTable.revised pte f pte.protection set clear) := by
  have hcow : (pte.flags.update set clear).cow = pte.flags.cow := by
    simp [PteFlags.update, hset.1, hclear.1]
  refine ⟨?_, ?_, ?_, fun hc ↦ h.cow (hcow ▸ hc)⟩
  · simp [PageTable.revised, PteFlags.update, h.present, hclear.2.2]
  · rw [PageTable.revised, h.protection]
    simp only [PageTable.effectiveProtection, hcow]
    split_ifs <;> rfl
  · simp [PageTable.revised, PteFlags.update, h.shared, hset.2, hclear.2.1]

/-! ## Populating -/

/-- What `minimm_populate_page_locked` does to the entries: page `k` may get one. -/
structure Populated (c : Space) (k : ℕ) (r : Status × Space) : Prop where
  table : ∃ t, r.2 = c.setTable t
  others : ∀ p, p ≠ k → r.2.pageTable.pte p = c.pageTable.pte p
  old : ∀ pte, c.pageTable.pte k = some pte → r.2.pageTable.pte k = some pte
  failed : r.1 ≠ .ok → r.2.pageTable.pte k = c.pageTable.pte k
  present : r.1 = .ok → (r.2.pageTable.pte k).isSome = true
  fresh : ∀ pte, c.pageTable.pte k = none → r.2.pageTable.pte k = some pte →
    pte.flags.accessed = false ∧ pte.flags.dirty = false ∧ pte.flags.locked = false

theorem Populated.same {status : Status}
    (hstatus : status = .ok → (c.pageTable.pte k).isSome = true) : Populated c k (status, c) :=
  ⟨⟨c.pageTable, rfl⟩, fun _ _ ↦ rfl, fun _ h ↦ h, fun _ ↦ rfl, hstatus,
    fun pte hn hs ↦ by rw [hn] at hs; cases hs⟩

theorem Populated.le {r : Status × Space} (h : Populated c k r) (p : ℕ) (pte : Pte)
    (hp : c.pageTable.pte p = some pte) : r.2.pageTable.pte p = some pte := by
  by_cases hpk : p = k
  · subst hpk
    exact h.old pte hp
  · rw [h.others p hpk, hp]

theorem Populated.mapped {f : FrameId} {flags : PteFlags} {r : Status × PageTable}
    (h : PageTable.Mapped c.pageTable.pte (k * pageSize) f v.prot flags r)
    (hk : c.pageTable.pte k = none) (haccessed : flags.accessed = false)
    (hdirty : flags.dirty = false) (hlocked : flags.locked = false) :
    Populated c k (r.1, c.setTable r.2) := by
  have hpage : k * pageSize / pageSize = k := Nat.mul_div_cancel _ (by decide)
  rcases h with ⟨hok, -, -, -, hhas⟩ | ⟨hne, hhas⟩
  · rw [hpage] at hhas
    have hself := hhas.pte k
    rw [Function.update_self] at hself
    refine ⟨⟨r.2, rfl⟩, fun p hp ↦ ?_, fun pte hpte ↦ ?_, fun hne ↦ absurd hok hne,
      fun _ ↦ by rw [setTable, hself]; rfl, fun pte _ hpte ↦ ?_⟩
    · exact (hhas.pte p).trans (Function.update_of_ne hp _ _)
    · rw [hk] at hpte
      cases hpte
    · cases hself.symm.trans hpte
      exact ⟨haccessed, hdirty, hlocked⟩
  · refine ⟨⟨r.2, rfl⟩, fun p _ ↦ hhas.pte p, fun pte hpte ↦ (hhas.pte k).trans hpte,
      fun _ ↦ hhas.pte k, fun hok ↦ absurd hok hne, fun pte hn hpte ↦ ?_⟩
    cases (hn.symm.trans (hhas.pte k).symm).trans hpte

theorem populatePageLocked_spec :
    Triple μ 0 ({lock (.space i)} + c.sites) (Sound ν i bad c) (c.populatePageLocked address)
      (fun r ↦ {lock (.space i)} + r.2.sites)
      fun r s ↦ Sound ν i bad r.2 s ∧ Populated c (address / pageSize) r ∧
        (r.1 = .ok → ∀ pte, c.pageTable.pte (address / pageSize) = some pte →
          s.store.resident pte.frame = true) := by
  intro s x w hK hat h
  unfold populatePageLocked
  by_cases ha : address ≥ userAddressLimit
  · rw [if_pos ha]
    exact ⟨hat, h, .same nofun, nofun⟩
  rw [if_neg ha]
  cases hv : c.vmaSnapshot.lookup address with
  | none => exact ⟨hat, h, .same nofun, nofun⟩
  | some v =>
  obtain ⟨binding, hmem, hfind, hkind⟩ := h.binding hv
  dsimp only
  rw [hfind, h.wf.pteAt]
  cases hp : c.pageTable.pte (address / pageSize) with
  | some pte =>
    refine frameEnsureResident_spec.seq hat (zero_add _).symm
      ((ref_le hp).trans ((le_add_left le_rfl).trans le_self_add)) trivial ?_
    rintro ⟨status, pagedIn⟩ w1 hat1 hk1 hres
    refine ⟨hat1.congr (zero_add _), h.keeps hk1 ?_, .same fun _ ↦ by rw [hp]; rfl, ?_⟩
    · exact (add_le_add_right c.table_le _).trans le_self_add
    · rintro hok _ ⟨⟩
      exact hres hok
  | none =>
    have hback : {lock (.space i)} + c.sites = {backing binding.backing} +
        ({lock (.space i)} + c.pageTable.sites + bindingSites (c.bindings.erase binding)) := by
      rw [sites_eq, Binding.sites_of_mem hmem]
      ac_rfl
    have his := hat.inv.backingIs (b := binding.backing)
      (Multiset.mem_of_le hat.le (by rw [hback]; simp))
    refine backingInfo_spec.seq hat (zero_add _).symm
      ((backing_le hmem).trans ((le_add_left le_rfl).trans le_self_add)) his ?_
    rintro _ w1 hat1 hk1 ⟨rfl, -⟩
    have h1 := h.keeps hk1 ((add_le_add_right c.table_le _).trans le_self_add)
    refine (residentFrame_spec _).seq hat1 ((zero_add _).trans hback) zero_le trivial ?_
    rintro ⟨status, f, created⟩ w2 hat2 hk2 -
    have h2 := h1.keeps hk2 (le_self_add.trans le_self_add)
    dsimp only at hat2 ⊢
    split_ifs with hstatus
    · rw [got_of_ne hstatus, add_zero, ← hback] at hat2
      exact ⟨hat2, h2, .same fun hok ↦ absurd hok hstatus, fun hok ↦ absurd hok hstatus⟩
    rw [not_not.1 hstatus, got_ok] at hat2
    have hunlocked : (sharingFlags (w.sys.backingInfo binding.backing).kind v.maxProt false
        {}).locked = false := by
      rw [sharingFlags]
      split_ifs <;> rfl
    refine (PageTable.map_at bad h2.wf.has (K := {ref f}) (by simp) fun _ hl ↦ ?_).seq
      (F := {ref f} + ({backing binding.backing} +
        ({lock (.space i)} + bindingSites (c.bindings.erase binding)))) hat2 (by ac_rfl)
      (le_self_add.trans le_self_add) ⟨h2.locked, fun _ hl ↦ ?_⟩ ?_
    · rw [hunlocked] at hl
      cases hl
    · rw [hunlocked] at hl
      cases hl
    rintro ⟨status, t⟩ w3 hat3 hk3 ⟨hlocked3, hmapped⟩
    rw [pageOf_eq] at hmapped
    have hpopulated := Populated.mapped hmapped hp (by rw [sharingFlags]; split_ifs <;> rfl)
      (by rw [sharingFlags]; split_ifs <;> rfl) hunlocked
    have hv' : c.vmaSnapshot.lookup (address / pageSize * pageSize) = some v := by
      rw [VmaSnapshot.lookup_page h.wf.snapshot, hv]
    have h3 : Sound ν i bad (c.setTable t) w3.sys := by
      refine ⟨h.wf.mapped hmapped hv' (pteOk_sharing hkind rfl rfl f false),
        h2.bound.keeps hk3, agrees_of_le hpopulated.le (h2.tlb.keeps hk3 ?_), hlocked3⟩
      simp
    refine release_spec.seq (F := {lock (.space i)} + (c.setTable t).sites) hat3 ?_
      zero_le trivial fun _ w4 hat4 hk4 _ ↦ ?_
    · rw [sites_eq (c.setTable t), show (c.setTable t).bindings = c.bindings from rfl,
        Binding.sites_of_mem hmem]
      change t.sites + _ = _ + (_ + (t.sites + _))
      ac_rfl
    refine ⟨hat4.congr (zero_add _), h3.keeps hk4 ?_, hpopulated, fun _ pte hpte ↦ ?_⟩
    · exact (add_le_add_right (table_le _) _).trans le_self_add
    · cases hpte

/-! ## Faults -/

/-- The flags that an access leaves in an entry. -/
structure Marked (access : Access) (flags : PteFlags) : Prop where
  accessed : flags.accessed = true
  written : (accessFlags access).dirty = true → flags.dirty = true ∧ flags.cow = false

/-- What the mapping of a page allows, its entry allows too, unless it is to be copied first. -/
def EntriesAllow (c : Space) : Prop :=
  ∀ address access v pte, c.vmaSnapshot.lookup address = some v →
    faultAccessIsAllowed v.prot access = true → c.pteAt (pageOf address) = some pte →
    ¬(pte.flags.cow = true ∧ (accessFlags access).dirty = true) →
    faultAccessIsAllowed pte.protection access = true

theorem Wf.entriesAllow (h : c.Wf) : c.EntriesAllow := by
  intro address access v pte hv hallowed hpte hcow
  rw [h.pteAt_pageOf] at hpte
  obtain ⟨v', hv', hok⟩ := h.entry _ _ hpte
  rw [VmaSnapshot.lookup_page h.snapshot, hv] at hv'
  cases hv'
  rw [hok.protection, PageTable.effectiveProtection]
  split_ifs with hflag
  · -- an entry that is to be copied keeps the rights to read and to execute
    cases access with
    | read | execute | invalid => exact hallowed
    | write | edit => exact absurd ⟨hflag, rfl⟩ hcow
  · exact hallowed

/-- What the table functions of a fault on page `k` leave. -/
structure Faulted (c : Space) (k : ℕ) (access : Access) (r : Status × PageTable × FaultInfo) :
    Prop where
  wf : (c.setTable r.2.1).Wf
  others : ∀ p, p ≠ k → r.2.1.pte p = c.pageTable.pte p
  failed : r.1 ≠ .ok → r.2.1.pte k = c.pageTable.pte k
  page : r.2.2.pageAddress = k * pageSize
  resolved : r.1 = .ok → ∃ pte, r.2.1.pte k = some pte ∧ Marked access pte.flags

theorem Faulted.same {status : Status} {fault : FaultInfo} {access : Access} (h : c.Wf)
    (hpage : fault.pageAddress = k * pageSize) (hstatus : status ≠ .ok) :
    Faulted c k access (status, c.pageTable, fault) :=
  ⟨h, fun _ _ ↦ rfl, fun _ ↦ rfl, hpage, fun hok ↦ absurd hok hstatus⟩

theorem faultFrame_spec (kind : BackingKind) (offset : ℕ) (write : Bool) :
    Triple μ 0 {backing b} (fun _ ↦ True) (faultFrame b kind offset write)
      (fun r ↦ {backing b} + got r.1 r.2.1) fun _ _ ↦ True := by
  rw [faultFrame]
  refine .ite (fun _ ↦ ?_) fun _ ↦ residentFrame_spec offset
  intro s x w hK hat _
  refine (Backing.getFrame_spec offset).first hat trivial ?_
  rintro ⟨status, f, created⟩ w1 hat1 - -
  rw [add_zero] at hat1
  dsimp only at hat1 ⊢
  split_ifs with hstatus
  · rw [got_of_ne hstatus] at hat1
    exact ⟨hat1.congr (by rw [got_of_ne hstatus]), trivial⟩
  rw [not_not.1 hstatus, got_ok] at hat1
  refine frameCopy_spec.seq hat1 (zero_add _).symm ((le_add_left le_rfl).trans le_self_add)
    trivial ?_
  rintro ⟨status, copy⟩ w2 hat2 - -
  refine release_spec.seq (F := {backing b} + got status copy) hat2 (by ac_rfl) zero_le trivial
    fun _ w3 hat3 _ _ ↦ ?_
  exact ⟨hat3.congr (zero_add _), trivial⟩

theorem marked_sharing (kind : BackingKind) (maxProt : Prot) (access : Access) :
    Marked access (sharingFlags kind maxProt
      (decide (kind = .notePrivate) && (accessFlags access).dirty) (accessFlags access)) := by
  constructor
  · rw [sharingFlags]
    split_ifs <;> rfl
  · intro hdirty
    rw [sharingFlags]
    split_ifs with hshared hprivate
    · exact ⟨hdirty, rfl⟩
    · simp [hprivate.1, hdirty] at hprivate
    · exact ⟨hdirty, rfl⟩

theorem faultMissing_spec {kind : BackingKind} {fault : FaultInfo}
    (hwf : c.Wf) (hv : c.vmaSnapshot.lookup (k * pageSize) = some v)
    (hkind : kind.shared = v.shared) (hpage : fault.pageAddress = k * pageSize) :
    Triple μ 0 ({backing b} + c.pageTable.sites) (fun s ↦ c.pageTable.LockedResident μ s bad)
      (faultMissing c.pageTable v b kind fault) (fun r ↦ {backing b} + r.2.1.sites)
      fun r s ↦ r.2.1.LockedResident μ s bad ∧ Faulted c k fault.access r := by
  intro s x w hK hat h
  unfold faultMissing
  refine (faultFrame_spec _ _ _).seq hat rfl zero_le trivial ?_
  rintro ⟨status, f, created⟩ w1 hat1 hk1 -
  have h1 := h.keeps hk1 le_self_add
  dsimp only at hat1 ⊢
  split_ifs with hstatus
  · rw [got_of_ne hstatus, add_zero] at hat1
    exact ⟨hat1, h1, .same hwf hpage hstatus⟩
  rw [not_not.1 hstatus, got_ok] at hat1
  set flags := sharingFlags kind v.maxProt
    (decide (kind = .notePrivate) && (accessFlags fault.access).dirty) (accessFlags fault.access)
    with hflags
  have hunlocked : flags.locked = false := by
    rw [hflags, sharingFlags]
    split_ifs <;> rfl
  have htouched : Marked fault.access flags := marked_sharing _ _ _
  refine (PageTable.map_at bad hwf.has (K := {ref f}) (by simp) fun _ hl ↦ ?_).seq
    (F := {ref f} + {backing b}) hat1 (by ac_rfl) (le_self_add.trans le_self_add)
    ⟨h1, fun _ hl ↦ ?_⟩ ?_
  · rw [hunlocked] at hl
    cases hl
  · rw [hunlocked] at hl
    cases hl
  rintro ⟨status, t⟩ w2 hat2 hk2 ⟨h2, hmapped⟩
  rw [hpage] at hmapped
  have hwf2 := hwf.mapped hmapped hv (pteOk_sharing hkind rfl rfl f _)
  refine release_spec.seq (F := {backing b} + t.sites) hat2 (by ac_rfl) zero_le trivial
    fun _ w3 hat3 hk3 _ ↦ ?_
  have h3 := h2.keeps hk3 ((le_add_left le_rfl).trans le_self_add)
  rw [zero_add] at hat3
  have hpages : k * pageSize / pageSize = k := Nat.mul_div_cancel _ (by decide)
  rcases hmapped with ⟨hok, -, -, -, hhas⟩ | ⟨hne, hhas⟩
  · rw [if_neg (not_not.2 hok)]
    rw [hpages] at hhas
    refine ⟨hat3, h3, hwf2, fun p hp ↦ ?_, fun hne ↦ absurd rfl hne, hpage, fun _ ↦ ?_⟩
    · exact (hhas.pte p).trans (Function.update_of_ne hp _ _)
    · exact ⟨_, (hhas.pte k).trans (Function.update_self ..), htouched.1, htouched.2⟩
  · rw [if_pos hne]
    exact ⟨hat3, h3, hwf2, fun p _ ↦ hhas.pte p, fun _ ↦ hhas.pte k, hpage,
      fun hok ↦ absurd hok hne⟩

theorem Faulted.revised {fault : FaultInfo} (hwf : c.Wf)
    (hv : c.vmaSnapshot.lookup (k * pageSize) = some v)
    (ht : t.Has (Function.update c.pageTable.pte k (some pte))) (hpte : PteOk v pte)
    (hpage : fault.pageAddress = k * pageSize) {access : Access}
      (htouched : Marked access pte.flags) :
    Faulted c k access (.ok, t, fault) where
  wf := hwf.setTable ht (Fits.insert hwf.entry hv hpte)
  others p hp := (ht.pte p).trans (Function.update_of_ne hp _ _)
  failed hne := absurd rfl hne
  page := hpage
  resolved _ := ⟨pte, (ht.pte k).trans (Function.update_self ..), htouched⟩

theorem faultCow_spec {fault : FaultInfo} (hwf : c.Wf)
    (hv : c.vmaSnapshot.lookup (k * pageSize) = some v) (hk : c.pageTable.pte k = some pte)
    (hpage : fault.pageAddress = k * pageSize) (hpte : PteOk v pte) :
    Triple μ 0 c.pageTable.sites (fun s ↦ c.pageTable.LockedResident μ s bad)
      (faultCow c.pageTable v pte fault) (fun r ↦ r.2.1.sites)
      fun r s ↦ r.2.1.LockedResident μ s bad ∧ Faulted c k fault.access r := by
  intro s x w hK hat h
  unfold faultCow
  refine frameCopy_spec.seq hat (zero_add _).symm (le_self_add.trans' ?_) trivial ?_
  · exact (Multiset.singleton_le.2 (Inv.ref_mem_sites pte)).trans (Inv.pte_sites_le hk)
  rintro ⟨status, f⟩ w1 hat1 hk1 -
  have h1 := h.keeps hk1 le_self_add
  dsimp only at hat1 ⊢
  split_ifs with hstatus
  · rw [got_of_ne hstatus, zero_add] at hat1
    exact ⟨hat1, h1, .same hwf hpage hstatus⟩
  rw [not_not.1 hstatus, got_ok] at hat1
  rw [hpage]
  refine (PageTable.replaceFrame_at hwf.has hk (K := {ref f}) (.inl (by simp)) rfl rfl
    (by simp [PteFlags.meets, accessFlags])).seq (F := {ref f}) hat1 (add_comm _ _) le_self_add
    h1 ?_
  rintro ⟨status, t⟩ w2 hat2 hk2 ⟨h2, hok, hhas⟩
  refine release_spec.seq hat2 (add_comm _ _) zero_le trivial fun _ w3 hat3 hk3 _ ↦ ?_
  dsimp only at hok
  subst hok
  refine ⟨hat3.congr (zero_add _), h2.keeps hk3 le_self_add, .revised hwf hv hhas ?_ rfl ?_⟩
  · refine ⟨?_, rfl, ?_, ?_⟩ <;>
      simp [PageTable.revised, PteFlags.update, accessFlags, hpte.present, hpte.shared]
  · exact ⟨by simp [PageTable.revised, PteFlags.update, accessFlags],
      fun hdirty ↦ by simp [PageTable.revised, PteFlags.update, hdirty]⟩

theorem faultPresent_spec {fault : FaultInfo} (hwf : c.Wf)
    (hv : c.vmaSnapshot.lookup (k * pageSize) = some v) (hk : c.pageTable.pte k = some pte)
    (hpage : fault.pageAddress = k * pageSize) (hpte : PteOk v pte)
    (hcow : ¬(pte.flags.cow = true ∧ (accessFlags fault.access).dirty = true)) :
    Triple μ 0 c.pageTable.sites (fun s ↦ c.pageTable.LockedResident μ s bad)
      (faultPresent c.pageTable pte fault) (fun r ↦ r.2.1.sites)
      fun r s ↦ r.2.1.LockedResident μ s bad ∧ Faulted c k fault.access r := by
  intro s x w hK hat h
  unfold faultPresent
  split_ifs
  · exact ⟨hat, h, .same hwf hpage (by decide)⟩
  refine frameEnsureResident_spec.seq hat (zero_add _).symm (le_self_add.trans' ?_) trivial ?_
  · exact (Multiset.singleton_le.2 (Inv.ref_mem_sites pte)).trans (Inv.pte_sites_le hk)
  rintro ⟨status, pagedIn⟩ w1 hat1 hk1 -
  have h1 := h.keeps hk1 le_self_add
  rw [zero_add] at hat1
  dsimp only
  by_cases hstatus : status ≠ .ok
  · rw [if_pos hstatus]
    exact ⟨hat1, h1, .same hwf hpage hstatus⟩
  rw [if_neg hstatus, hpage]
  refine (PageTable.updateFlags_at hwf.has hk rfl rfl (by simp [PteFlags.meets])
    fun hl ↦ absurd hl (by simp [accessFlags])).first hat1 h1 ?_
  rintro ⟨status, t⟩ w2 hat2 hk2 ⟨h2, hok, hhas⟩
  have hpte2 : PteOk v (PageTable.revised pte pte.frame pte.protection
      (accessFlags fault.access) {}) :=
    PteOk.flagged hpte pte.frame ⟨rfl, rfl⟩ ⟨rfl, rfl, rfl⟩
  have htouched : Marked fault.access (pte.flags.update (accessFlags fault.access) {}) := by
    refine ⟨by simp [PteFlags.update, accessFlags],
      fun hdirty ↦ ⟨by simp [PteFlags.update, hdirty], ?_⟩⟩
    have hclear : pte.flags.cow = false := Bool.eq_false_of_not_eq_true fun h ↦ hcow ⟨h, hdirty⟩
    simp [PteFlags.update, accessFlags, hclear]
  rw [add_zero] at hat2
  dsimp only at hok ⊢
  rw [if_neg (not_not.2 hok)]
  split_ifs
  · exact ⟨hat2, h2, .revised hwf hv hhas hpte2 rfl htouched⟩
  · exact ⟨hat2, h2, .revised hwf hv hhas hpte2 rfl htouched⟩

theorem faultMapped_spec {fault : FaultInfo} {info : BackingInfo} (hwf : c.Wf)
    (hv : c.vmaSnapshot.lookup (k * pageSize) = some v) (hkind : info.kind.shared = v.shared)
    (hpage : fault.pageAddress = k * pageSize) :
    Triple μ 0 ({backing b} + c.pageTable.sites)
      (fun s ↦ c.pageTable.LockedResident μ s bad ∧ BackingIs b info s)
      (faultMapped c v b fault) (fun r ↦ {backing b} + r.2.1.sites)
      fun r s ↦ r.2.1.LockedResident μ s bad ∧ Faulted c k fault.access r := by
  intro s x w hK hat ⟨h, his⟩
  unfold faultMapped
  refine backingInfo_spec.seq hat (zero_add _).symm (le_self_add.trans le_self_add) his ?_
  rintro _ w1 hat1 hk1 ⟨rfl, -⟩
  have h1 := h.keeps hk1 ((le_add_left le_rfl).trans le_self_add)
  rw [zero_add] at hat1
  rw [hpage, hwf.pteAt_page]
  cases hk : c.pageTable.pte k with
  | none => exact faultMissing_spec hwf hv hkind hpage s x w1 hK hat1 h1
  | some pte =>
    obtain ⟨v', hv', hpte⟩ := hwf.entry k pte hk
    cases hv.symm.trans hv'
    dsimp only
    split_ifs with hcow
    · exact (faultCow_spec hwf hv hk hpage hpte).tail hat1 (add_comm _ _) zero_le h1
        fun r w2 hat2 _ h2 ↦ ⟨hat2.congr (add_comm _ _), h2⟩
    · exact (faultPresent_spec hwf hv hk hpage hpte hcow).tail hat1 (add_comm _ _) zero_le h1
        fun r w2 hat2 _ h2 ↦ ⟨hat2.congr (add_comm _ _), h2⟩

theorem refreshTlb_spec {t0 : PageTable} (ht : t.Has g) (hk : k * pageSize < userAddressLimit)
    (hothers : ∀ p, p ≠ k → t.pte p = t0.pte p) :
    Triple μ 0 ({lock (.space i)} + t.sites)
      (fun s ↦ Tlb.All (Agrees t0) i s ∧ t.LockedResident μ s bad)
      (refreshTlb i t (k * pageSize)) (fun _ ↦ {lock (.space i)} + t.sites)
      fun _ s ↦ Tlb.All (Agrees t) i s ∧ t.LockedResident μ s bad := by
  intro s x w hK hat ⟨h, hlocked⟩
  have hpage : k * pageSize / pageSize = k := Nat.mul_div_cancel _ (by decide)
  refine (Tlb.invalidatePage_spec _).seq hat rfl zero_le h fun _ w1 hat1 hk1 h1 ↦ ?_
  have hlocked1 := hlocked.keeps hk1 le_self_add
  have hagrees : Tlb.All (Agrees t) i w1.sys := by
    refine h1.mono fun e ⟨he, hne⟩ ↦ ?_
    have := hne hk
    rw [hpage] at this
    exact (hothers _ this).trans he
  rw [ht.lookup_page, ← ht.pte]
  cases hp : t.pte k with
  | none => exact ⟨hat1, hagrees, hlocked1⟩
  | some pte =>
    refine (Tlb.insert_spec (R := Agrees t) pte hk (by rw [hpage]; exact hp)).tail hat1 rfl
      (le_self_add.trans' ?_) (hagrees.mono fun _ ↦ .inr)
      fun _ w2 hat2 hk2 h2 ↦ ⟨hat2, h2, hlocked1.keeps hk2 le_self_add⟩
    exact (Multiset.singleton_le.2 (Inv.ref_mem_sites pte)).trans (Inv.pte_sites_le hp)

/-- What a fault at an address does to the entries: page `k` may get another one, which serves the
access if the fault is resolved. -/
structure Resolved (c : Space) (k address : ℕ) (access : Access) (r : Status × Space) : Prop where
  snapshot : r.2.vmaSnapshot = c.vmaSnapshot
  others : ∀ p, p ≠ k → r.2.pageTable.pte p = c.pageTable.pte p
  failed : r.1 ≠ .ok → r.2.pageTable.pte k = c.pageTable.pte k
  allowed : r.1 = .ok → ∃ v, c.vmaSnapshot.lookup address = some v ∧
    faultAccessIsAllowed v.prot access = true
  entry : r.1 = .ok → ∃ pte, r.2.pageTable.pte k = some pte ∧ Marked access pte.flags

theorem Resolved.same {status : Status} {access : Access} (hstatus : status ≠ .ok) :
    Resolved c k address access (status, c) :=
  ⟨rfl, fun _ _ ↦ rfl, fun _ ↦ rfl, fun hok ↦ absurd hok hstatus, fun hok ↦ absurd hok hstatus⟩

theorem Faulted.resolves {access : Access} {r : Status × PageTable × FaultInfo}
    (h : Faulted c k access r) (hv : c.vmaSnapshot.lookup address = some v)
    (hallowed : faultAccessIsAllowed v.prot access = true) :
    Resolved c k address access (r.1, c.setTable r.2.1) :=
  ⟨rfl, h.others, h.failed, fun _ ↦ ⟨v, hv, hallowed⟩, h.resolved⟩

theorem resolveFault_spec {fault : FaultInfo} (hpage : fault.pageAddress = k * pageSize)
    (haddress : fault.address / pageSize = k) (hk : k * pageSize < userAddressLimit) :
    Triple μ 0 ({lock (.space i)} + c.sites) (Sound μ i bad c) (resolveFault i c fault)
      (fun r ↦ {lock (.space i)} + r.2.1.sites)
      fun r s ↦ Sound μ i bad r.2.1 s ∧
        Resolved c k fault.address fault.access (r.1, r.2.1) := by
  intro s x w hK hat h
  unfold resolveFault
  cases hv : c.vmaSnapshot.lookup fault.address with
  | none => exact ⟨hat, h, .same (by simp)⟩
  | some v =>
  dsimp only
  split_ifs with hallowed
  · exact ⟨hat, h, .same (by simp)⟩
  obtain ⟨binding, hmem, hfind, hkind⟩ := h.binding hv
  rw [hfind]
  dsimp only
  have hv' : c.vmaSnapshot.lookup (k * pageSize) = some v := by
    rw [← haddress, VmaSnapshot.lookup_page h.wf.snapshot, hv]
  have hback : {lock (.space i)} + c.sites = {backing binding.backing} + c.pageTable.sites +
      ({lock (.space i)} + bindingSites (c.bindings.erase binding)) := by
    rw [sites_eq, Binding.sites_of_mem hmem]
    ac_rfl
  have hafter : ∀ t : PageTable, {lock (.space i)} + (c.setTable t).sites =
      {lock (.space i)} + t.sites +
        ({backing binding.backing} + bindingSites (c.bindings.erase binding)) := fun t ↦ by
    rw [sites_eq, ← Binding.sites_of_mem hmem, add_assoc]
    rfl
  have his := hat.inv.backingIs (b := binding.backing)
    (Multiset.mem_of_le hat.le (by rw [hback]; simp))
  refine (faultMapped_spec h.wf hv' hkind hpage).seq hat hback zero_le ⟨h.locked, his⟩ ?_
  rintro ⟨status, t, fault'⟩ w1 hat1 hk1 ⟨h1, hfaulted⟩
  have htlb := h.tlb.keeps hk1 (by simp)
  have hbound := h.bound.keeps hk1
  have hat1' : At μ s x ({lock (.space i)} + (c.setTable t).sites) w1 := by
    refine hat1.congr ?_
    rw [hafter]
    ac_rfl
  have hresolved := hfaulted.resolves hv (Bool.not_eq_false _ ▸ hallowed)
  dsimp only
  split_ifs with hstatus
  · refine ⟨hat1', ⟨hfaulted.wf, hbound, agrees_of_le (fun p pte hp ↦ ?_) htlb, h1⟩, hresolved⟩
    by_cases hpk : p = k
    · subst hpk
      rw [← hp]
      exact hfaulted.failed hstatus
    · rw [← hp]
      exact hfaulted.others p hpk
  · rw [show fault'.pageAddress = k * pageSize from hfaulted.page]
    refine (refreshTlb_spec (hfaulted.wf.has) hk hfaulted.others).seq hat1' (hafter t) zero_le
      ⟨htlb, h1⟩ fun _ w2 hat2 hk2 h2 ↦ ?_
    rw [not_not.1 hstatus] at hresolved
    exact ⟨hat2.congr (hafter t).symm, ⟨hfaulted.wf, hbound.keeps hk2, h2.1, h2.2⟩, hresolved⟩

/-- The same space but for its record of faults. -/
structure Like (c c' : Space) : Prop where
  pageTable : c'.pageTable = c.pageTable
  vmaSnapshot : c'.vmaSnapshot = c.vmaSnapshot
  bindings : c'.bindings = c.bindings
  nextMappingCookie : c'.nextMappingCookie = c.nextMappingCookie
  mmapBase : c'.mmapBase = c.mmapBase

theorem Like.sites {c' : Space} (h : Like c c') : c'.sites = c.sites := by
  rw [sites_eq, sites_eq, h.pageTable, h.bindings]

theorem Like.sound {c' : Space} (h : Like c c') (hc : Sound μ i bad c s) : Sound μ i bad c' s where
  wf := by
    refine ⟨?_, ?_, ?_, ?_, h.mmapBase.trans hc.wf.base, ?_⟩
    · rw [h.vmaSnapshot]
      exact hc.wf.snapshot
    · rw [h.pageTable]
      exact hc.wf.table
    · rw [h.bindings, h.nextMappingCookie]
      exact hc.wf.cookies
    · rw [h.nextMappingCookie]
      exact hc.wf.nextCookie
    · rw [h.pageTable, h.vmaSnapshot]
      exact hc.wf.entry
  bound := by
    rw [Bound, h.vmaSnapshot, h.bindings]
    exact hc.bound
  tlb := by
    rw [h.pageTable]
    exact hc.tlb
  locked := by
    rw [h.pageTable]
    exact hc.locked

theorem like_faultBegin (c : Space) (address : ℕ) (access : Access) (origin : FaultOrigin) :
    Like c (c.faultBegin address access origin).2 := ⟨rfl, rfl, rfl, rfl, rfl⟩

theorem like_faultTraceAppend (c : Space) (fault : FaultInfo) :
    Like c (c.faultTraceAppend fault) := by
  rw [faultTraceAppend]
  by_cases hroom : c.faultTraceCount < faultTraceCapacity
  · rw [if_pos hroom]
    exact ⟨rfl, rfl, rfl, rfl, rfl⟩
  · rw [if_neg hroom]
    exact ⟨rfl, rfl, rfl, rfl, rfl⟩

theorem like_withoutFaultTrace (c : Space) : Like c c.withoutFaultTrace :=
  ⟨rfl, rfl, rfl, rfl, rfl⟩

theorem Resolved.like {c1 c' c'' : Space} {access : Access} {status : Status}
    (h : Resolved c1 k address access (status, c')) (hbefore : Like c c1) (hafter : Like c' c'') :
    Resolved c k address access (status, c'') where
  snapshot := (hafter.vmaSnapshot.trans h.snapshot).trans hbefore.vmaSnapshot
  others p hp := by
    dsimp only
    rw [hafter.pageTable, ← hbefore.pageTable]
    exact h.others p hp
  failed hne := by
    dsimp only
    rw [hafter.pageTable, ← hbefore.pageTable]
    exact h.failed hne
  allowed hok := by
    rw [← hbefore.vmaSnapshot]
    exact h.allowed hok
  entry hok := by
    dsimp only
    rw [hafter.pageTable]
    exact h.entry hok

theorem handlePageFaultLocked_spec (access : Access) (origin : FaultOrigin) :
    Triple μ 0 ({lock (.space i)} + c.sites) (Sound μ i bad c)
      (handlePageFaultLocked i c address access origin)
      (fun r ↦ {lock (.space i)} + r.2.sites)
      fun r s ↦ Sound μ i bad r.2 s ∧
        Resolved c (address / pageSize) address access (r.1.1, r.2) := by
  rw [handlePageFaultLocked]
  refine .ite (fun _ ↦ .pure rfl fun _ h ↦ ⟨h, .same nofun⟩) fun hvalid ↦ ?_
  rw [not_or, not_le] at hvalid
  intro s x w hK hat h
  have hk : address / pageSize * pageSize < userAddressLimit :=
    (Nat.div_mul_le_self _ _).trans_lt hvalid.1
  have hbegun := like_faultBegin c address access origin
  have haddress : (c.faultBegin address access origin).1.address = address := rfl
  have haccess : (c.faultBegin address access origin).1.access = access := rfl
  have hpage : (c.faultBegin address access origin).1.pageAddress = address / pageSize * pageSize :=
    pageOf_eq address
  generalize c.faultBegin address access origin = begun at hbegun haddress haccess hpage ⊢
  obtain ⟨fault, c1⟩ := begun
  refine (resolveFault_spec hpage (by rw [haddress]) hk).seq (F := 0) hat
    (by rw [hbegun.sites, add_zero]) zero_le (hbegun.sound h) ?_
  rintro ⟨status, c', fault'⟩ w1 hat1 - ⟨h1, hresolved⟩
  have htraced := like_faultTraceAppend c' { fault' with status := status }
  dsimp only at haddress haccess hresolved
  rw [haddress, haccess] at hresolved
  rw [add_zero] at hat1
  exact ⟨hat1.congr (by dsimp only; rw [htraced.sites]), htraced.sound h1,
    hresolved.like hbegun htraced⟩

theorem handlePageFault_spec (access : Access) :
    Spends μ 0 0 (fun s ↦ i < s.nextSpace) (handlePageFault i address access) :=
  withLock_plain fun _ _ ↦ (handlePageFaultLocked_spec access .explicit).post fun _ _ h ↦ h.1

theorem getFaultTrace_spec :
    Spends μ 0 0 (fun s ↦ i < s.nextSpace) (getFaultTrace i) :=
  withLock_plain fun _ _ ↦ .pure rfl fun _ h ↦ h

theorem clearFaultTrace_spec :
    Spends μ 0 0 (fun s ↦ i < s.nextSpace) (clearFaultTrace i) :=
  withLock_plain fun c _ ↦ .pure (by rw [(like_withoutFaultTrace c).sites]) fun _ h ↦
    (like_withoutFaultTrace c).sound h

end Space

end MiniMM
