import MiniMM.Access
import MiniMM.Spec.Fault

/-!
# Specifications of reads, writes and edits
-/

namespace MiniMM

open Handle

variable {μ : Mode} {f : FrameId}

theorem isResident_spec :
    Spends μ {ref f} 0 (fun _ ↦ True) (Code.store (.isResident f)) :=
  frame_spec (o := .isResident f) fun _ hx g hg ↦ by cases hg; exact hx

theorem tryPinResident_spec :
    Triple μ {ref f} 0 (fun _ ↦ True) (Code.store (.tryPinResident f))
      (fun pinned ↦ if pinned = true then {transient f} else 0) fun _ _ ↦ True :=
  frame_spec (o := .tryPinResident f) fun _ hx g hg ↦ by cases hg; exact hx

theorem unpinResident_spec :
    Spends μ {ref f} {transient f} (fun _ ↦ True) (Code.store (.unpinResident f)) :=
  frame_spec (o := .unpinResident f) fun _ hx g hg ↦ by cases hg; exact hx

theorem stuck_spec :
    Triple μ 0 0 (fun _ ↦ True) (.step .stuck) (fun _ ↦ 0) fun _ _ ↦ False := by
  refine .step (fun _ _ _ _ ↦ trivial) (fun _ _ _ ↦ ⟨le_rfl, trivial⟩) fun _ _ _ hn _ ↦ ?_
  obtain ⟨woken, hexec⟩ := hn.exec
  cases hexec

namespace Space

variable {x : Multiset Handle} {i : SpaceId} {bad : Set ℕ} {c : Space} {s s' : Sys}
  {pte : Pte} {k address : ℕ} {access : Access} {write : Bool}

/-- The order of a space whose TLB may have an old translation of page `k`. -/
structure Stale (μ : Mode) (i : SpaceId) (k : ℕ) (c : Space) (s : Sys) : Prop where
  wf : c.Wf
  bound : c.Bound s
  tlb : Tlb.All (fun e ↦ e.virtualPage = k ∨ Agrees c.pageTable e) i s
  locked : c.pageTable.LockedResident μ s ∅

theorem Sound.stale (h : Sound μ i ∅ c s) (k : ℕ) : Stale μ i k c s :=
  ⟨h.wf, h.bound, h.tlb.mono fun _ ↦ .inr, h.locked⟩

/-- Only page `k` may have got another entry. -/
structure Beside (k : ℕ) (c c' : Space) : Prop where
  snapshot : c'.vmaSnapshot = c.vmaSnapshot
  others : ∀ p, p ≠ k → c'.pageTable.pte p = c.pageTable.pte p

theorem Beside.refl (k : ℕ) (c : Space) : Beside k c c := ⟨rfl, fun _ _ ↦ rfl⟩

theorem Beside.trans {c' c'' : Space} (h : Beside k c c') (h' : Beside k c' c'') :
    Beside k c c'' :=
  ⟨h'.snapshot.trans h.snapshot, fun p hp ↦ (h'.others p hp).trans (h.others p hp)⟩

theorem Resolved.beside {r : Status × Space} (h : Resolved c k address access r) :
    Beside k c r.2 :=
  ⟨h.snapshot, h.others⟩

/-- A page with the translation that an access is to use. -/
structure Refilled (μ : Mode) (i : SpaceId) (k : ℕ) (access : Access) (c : Space)
    (r : Status × Space × Option Pte) (s : Sys) : Prop where
  beside : Beside k c r.2.1
  failed : r.2.2 = none → Sound μ i ∅ r.2.1 s ∧ r.1 ≠ .ok
  found : ∀ pte, r.2.2 = some pte →
    Stale μ i k r.2.1 s ∧ r.2.1.pageTable.pte k = some pte ∧ Marked access pte.flags

theorem Refilled.of_sound {status : Status} {c' : Space} (h : Sound μ i ∅ c' s)
    (hb : Beside k c c') (hstatus : status ≠ .ok) :
    Refilled μ i k access c (status, c', none) s := by
  refine ⟨hb, fun _ ↦ ⟨h, hstatus⟩, fun pte hpte ↦ ?_⟩
  cases hpte

theorem Refilled.of_stale {status : Status} {c' : Space} (h : Stale μ i k c' s)
    (hb : Beside k c c') (hk : c'.pageTable.pte k = some pte) (ht : Marked access pte.flags) :
    Refilled μ i k access c (status, c', some pte) s := by
  refine ⟨hb, fun hnone ↦ ?_, fun pte' hpte ↦ ?_⟩
  · cases hnone
  · cases hpte
    exact ⟨h, hk, ht⟩

theorem Refilled.after {c0 : Space} {r : Status × Space × Option Pte}
    (h : Refilled μ i k access c r s) (hb : Beside k c0 c) : Refilled μ i k access c0 r s :=
  ⟨hb.trans h.beside, h.failed, h.found⟩

/-- The transient pin of a translation. -/
def pinnedSites (pte : Option Pte) : Multiset Handle := pte.elim 0 fun pte ↦ {transient pte.frame}

/-- The transient pin and the reference of a translation. -/
def heldSites (pte : Option Pte) : Multiset Handle :=
  pte.elim 0 fun pte ↦ {transient pte.frame} + {ref pte.frame}

theorem pteRequiresFault_spec :
    Triple μ {ref pte.frame} 0 (fun _ ↦ True) (pteRequiresFault pte access write) (fun _ ↦ 0)
      fun r _ ↦ r = false → ¬(write = true ∧ pte.flags.cow = true) := by
  intro s x w hK hat _
  refine isResident_spec.seq (F := 0) hat rfl (by simpa using hK) trivial
    fun resident _ hat' _ _ ↦ ⟨hat', fun hr hcow ↦ ?_⟩
  simp [hcow.1, hcow.2] at hr

/-- Setting the flags of an access succeeds, and changes nothing but the flags. -/
theorem refillFlags_spec (hk : c.pageTable.pte k = some pte)
    (hwrite : (accessFlags access).dirty = write)
    (hcow : ¬(write = true ∧ pte.flags.cow = true)) :
    Triple μ 0 ({lock (.space i)} + c.sites + {transient pte.frame}) (Sound μ i ∅ c)
      (refillFlags c (k * pageSize) pte { accessed := true, dirty := write })
      (fun r ↦ {lock (.space i)} + r.2.1.sites + {transient r.2.2.frame})
      fun r s ↦ r.1 = .ok ∧ Stale μ i k r.2.1 s ∧ r.2.1.pageTable.pte k = some r.2.2 ∧
        Beside k c r.2.1 ∧ Marked access r.2.2.flags := by
  intro s x w hK hat h
  unfold refillFlags
  by_cases hincludes : pte.flags.includes { accessed := true, dirty := write } = true
  · rw [if_pos hincludes]
    refine ⟨hat, rfl, h.stale k, hk, .refl k c, ?_⟩
    rw [← hwrite] at hincludes hcow
    simp only [PteFlags.includes, Bool.and_eq_true, Bool.or_eq_true, Bool.not_eq_true',
      Bool.true_eq_false, false_or] at hincludes
    refine ⟨hincludes.1.1.2, fun hdirty ↦ ⟨?_, Bool.eq_false_of_not_eq_true fun h ↦
      hcow ⟨hdirty, h⟩⟩⟩
    simpa [hdirty] using hincludes.1.2
  rw [if_neg hincludes]
  obtain ⟨v, hv, hpte⟩ := h.wf.entry k pte hk
  refine (PageTable.updateFlags_at h.wf.has hk rfl rfl (by simp [PteFlags.meets])
    fun hl ↦ absurd hl (by simp)).seq
    (F := {lock (.space i)} + bindingSites c.bindings + {transient pte.frame}) hat
    (by rw [sites_eq]; ac_rfl) zero_le h.locked ?_
  rintro ⟨status, t⟩ w1 hat1 hk1 ⟨h1, hok, hhas⟩
  dsimp only at hok h1 hhas ⊢
  rw [if_neg (not_not.2 hok), hhas.lookup_page, Function.update_self]
  refine ⟨hat1.congr ?_, rfl, ⟨?_, h.bound.keeps hk1, ?_, h1⟩, ?_, ⟨rfl, fun p hp ↦ ?_⟩, ?_⟩
  · rw [sites_eq, show (c.setTable t).bindings = c.bindings from rfl]
    change t.sites + _ = _ + (t.sites + _) + _
    ac_rfl
  · exact h.wf.setTable hhas (Fits.insert h.wf.entry hv
      (PteOk.flagged hpte pte.frame ⟨rfl, rfl⟩ ⟨rfl, rfl, rfl⟩))
  · refine (h.tlb.keeps hk1 (by simp)).mono fun e he ↦ ?_
    by_cases hpage : e.virtualPage = k
    · exact .inl hpage
    · right
      change t.pte _ = _
      rw [hhas.pte, Function.update_of_ne hpage]
      exact he
  · exact (hhas.pte k).trans (Function.update_self ..)
  · exact (hhas.pte p).trans (Function.update_of_ne hp _ _)
  · rw [← hwrite] at hcow ⊢
    refine ⟨by simp [PageTable.revised, PteFlags.update], fun hdirty ↦ ?_⟩
    have hclear : pte.flags.cow = false := Bool.eq_false_of_not_eq_true fun h ↦ hcow ⟨hdirty, h⟩
    simp [PageTable.revised, PteFlags.update, hdirty, hclear]

theorem refillFault_spec {again : Space → Code (Status × Space × Option Pte)}
    (hagain : ∀ c, Triple μ 0 ({lock (.space i)} + c.sites) (Sound μ i ∅ c) (again c)
      (fun r ↦ {lock (.space i)} + r.2.1.sites + pinnedSites r.2.2)
      (Refilled μ i (address / pageSize) access c)) :
    Triple μ 0 ({lock (.space i)} + c.sites) (Sound μ i ∅ c) (refillFault i address access again c)
      (fun r ↦ {lock (.space i)} + r.2.1.sites + pinnedSites r.2.2)
      (Refilled μ i (address / pageSize) access c) := by
  intro s x w hK hat h
  unfold refillFault
  refine (handlePageFaultLocked_spec _ _).first hat h ?_
  rintro ⟨⟨status, fault⟩, c1⟩ w1 hat1 - ⟨h1, hresolved⟩
  rw [add_zero] at hat1
  dsimp only at hat1 h1 ⊢
  split_ifs with hstatus
  · exact ⟨hat1.congr (add_zero _).symm, .of_sound h1 hresolved.beside hstatus⟩
  rw [h1.wf.pteAt_pageOf]
  cases hp : c1.pageTable.pte (address / pageSize) with
  | none => exact ⟨hat1.congr (add_zero _).symm, .of_sound h1 hresolved.beside (by decide)⟩
  | some pte =>
    obtain ⟨pte', hpte', htouched⟩ := hresolved.entry (not_not.1 hstatus)
    cases hp.symm.trans hpte'
    refine tryPinResident_spec.seq hat1 (zero_add _).symm
      ((ref_le hp).trans ((le_add_left le_rfl).trans le_self_add)) trivial
      fun pinned w2 hat2 hk2 _ ↦ ?_
    have h2 := h1.keeps hk2 ((add_le_add_right c1.table_le _).trans le_self_add)
    cases pinned with
    | true =>
      exact ⟨hat2.congr (add_comm _ _), .of_stale (h2.stale _) hresolved.beside hp htouched⟩
    | false =>
      exact (hagain c1).tail (F := 0) hat2 (by rw [add_zero]; exact zero_add _) zero_le h2
        fun r w3 hat3 _ h3 ↦ ⟨hat3.congr (add_zero _), h3.after hresolved.beside⟩

theorem refillLoop_spec (hwrite : (accessFlags access).dirty = write) (spin : ℕ) :
    Triple μ 0 ({lock (.space i)} + c.sites) (Sound μ i ∅ c)
      (refillLoop i address access write spin c)
      (fun r ↦ {lock (.space i)} + r.2.1.sites + pinnedSites r.2.2)
      (Refilled μ i (address / pageSize) access c) := by
  induction spin generalizing c with
  | zero =>
    intro s x w hK hat h
    exact stuck_spec.aside hat trivial fun _ _ _ _ hfalse ↦ hfalse.elim
  | succ spin ih =>
    intro s x w hK hat h
    unfold refillLoop
    rw [h.wf.pteAt_pageOf]
    cases hp : c.pageTable.pte (address / pageSize) with
    | none => exact refillFault_spec (fun _ ↦ ih) s x w hK hat h
    | some pte =>
      have href : {ref pte.frame} ≤ {lock (.space i)} + c.sites + x :=
        (ref_le hp).trans ((le_add_left le_rfl).trans le_self_add)
      have hle : {lock (.space i)} + c.pageTable.sites ≤ {lock (.space i)} + c.sites + x :=
        (add_le_add_right c.table_le _).trans le_self_add
      refine pteRequiresFault_spec.seq hat (zero_add _).symm href trivial
        fun fault w1 hat1 hk1 hcow ↦ ?_
      have h1 := h.keeps hk1 hle
      rw [zero_add] at hat1
      by_cases hfault : fault = true
      · rw [if_pos hfault]
        exact refillFault_spec (fun _ ↦ ih) s x w1 hK hat1 h1
      rw [if_neg hfault]
      refine tryPinResident_spec.seq hat1 (zero_add _).symm href trivial
        fun pinned w2 hat2 hk2 _ ↦ ?_
      have h2 := h1.keeps hk2 hle
      cases pinned with
      | false => exact ih s x w2 hK (hat2.congr (zero_add _)) h2
      | true =>
        rw [if_neg (by simp), pageOf_eq]
        refine (refillFlags_spec hp hwrite (hcow (Bool.eq_false_of_not_eq_true hfault))).seq
          (F := 0) hat2 ?_ zero_le h2 ?_
        · rw [if_pos rfl, add_zero, add_comm]
        rintro ⟨status, c3, pte3⟩ w3 hat3 - ⟨hok, hstale, hpte3, hbeside, htouched⟩
        dsimp only at hok
        subst hok
        exact ⟨hat3.congr (add_zero _), .of_stale hstale hbeside hpte3 htouched⟩

/-- What a translation leaves: the entry of the page serves the access. -/
structure Translated (access : Access) (k : ℕ) (c : Space) (r : Status × Space × Option Pte) :
    Prop where
  beside : Beside k c r.2.1
  missing : r.2.2 = none → r.1 ≠ .ok
  found : ∀ pte, r.2.2 = some pte →
    r.2.1.pageTable.pte k = some pte ∧ Marked access pte.flags

theorem refillLocked_spec (ha : address < userAddressLimit)
    (hwrite : (accessFlags access).dirty = write) (spin : ℕ) :
    Triple μ 0 ({lock (.space i)} + c.sites) (Sound μ i ∅ c)
      (refillLocked i c address access write spin)
      (fun r ↦ {lock (.space i)} + r.2.1.sites + heldSites r.2.2)
      fun r s ↦ Sound μ i ∅ r.2.1 s ∧ Translated access (address / pageSize) c r := by
  intro s x w hK hat h
  unfold refillLocked
  refine (refillLoop_spec hwrite spin).first hat h ?_
  rintro ⟨status, c1, found⟩ w1 hat1 - h1
  rw [add_zero] at hat1
  cases found with
  | none => exact ⟨hat1, (h1.failed rfl).1, h1.beside, fun _ ↦ (h1.failed rfl).2,
        fun _ h ↦ by cases h⟩
  | some pte =>
    obtain ⟨hstale, hp, htouched⟩ := h1.found pte rfl
    dsimp only at hat1 hstale hp ⊢
    have hpage : pageOf address / pageSize = address / pageSize := by
      rw [pageOf_eq, Nat.mul_div_cancel _ (by decide)]
    have hlt : pageOf address < userAddressLimit := (Nat.sub_le _ _).trans_lt ha
    refine (Tlb.insert_spec (R := Agrees c1.pageTable) _ hlt (by rw [hpage]; exact hp)).seq
      (F := c1.sites + {transient pte.frame}) hat1 (add_assoc _ _ _)
      ((ref_le hp).trans (le_self_add.trans le_self_add)) (by rw [hpage]; exact hstale.tlb)
      fun _ w2 hat2 hk2 htlb ↦ ?_
    have h2 : Sound μ i ∅ c1 w2.sys := ⟨hstale.wf, hstale.bound.keeps hk2, htlb,
      hstale.locked.keeps hk2 (c1.table_le.trans (le_self_add.trans le_self_add))⟩
    refine retain_spec.seq hat2 (zero_add _).symm
      ((ref_le hp).trans ((le_self_add.trans (le_add_left le_rfl)).trans le_self_add)) trivial
      fun _ w3 hat3 hk3 _ ↦ ?_
    refine ⟨hat3.congr ?_, h2.keeps hk3 ?_, h1.beside, fun h ↦
      absurd h (Option.some_ne_none _), ?_⟩
    · change _ = _ + ({transient pte.frame} + {ref pte.frame})
      ac_rfl
    · refine le_trans ?_ le_self_add
      exact add_le_add_right (c1.table_le.trans le_self_add) _
    · rintro _ ⟨⟩
      exact ⟨hp, htouched⟩

theorem marked_of_suffices (h : translationSuffices pte access write = true)
    (hwrite : (accessFlags access).dirty = write) : Marked access pte.flags := by
  rw [translationSuffices, ← hwrite] at h
  simp only [Bool.not_or, Bool.not_and, Bool.not_not, Bool.and_eq_true, Bool.or_eq_true,
    Bool.not_eq_true'] at h
  refine ⟨h.1.2, fun hdirty ↦ ⟨?_, ?_⟩⟩
  · simpa [hdirty] using h.2
  · simpa [hdirty] using h.1.1.1

theorem translateHit_spec {R : TlbEntry → Prop} (hwrite : (accessFlags access).dirty = write) :
    Triple μ 0 {lock (.space i)} (Tlb.All R i) (translateHit i address access write)
      (fun r ↦ {lock (.space i)} + heldSites r)
      fun r s ↦ Tlb.All R i s ∧ ∀ pte, r = some pte →
        R ⟨address / pageSize, pte⟩ ∧ Marked access pte.flags := by
  intro s x w hK hat h
  unfold translateHit
  refine (Tlb.lookup_spec address).first hat h ?_
  rintro found w1 hat1 - ⟨h1, hfound⟩
  rw [add_zero] at hat1
  cases found with
  | none => exact ⟨hat1, h1, fun _ h ↦ by cases h⟩
  | some pte =>
    -- a translation that is of no use is released again
    have hdrop : ∀ {w : World}, At μ s x ({lock (.space i)} + {ref pte.frame}) w →
        Tlb.All R i w.sys → Prog.wp (rules μ) (do frameRelease pte.frame; pure none)
          (fun r w' ↦ At μ s x ({lock (.space i)} + heldSites r) w' ∧ Tlb.All R i w'.sys ∧
            ∀ pte, r = some pte → R ⟨address / pageSize, pte⟩ ∧ Marked access pte.flags) w := by
      intro w hat h
      refine release_spec.seq hat (add_comm _ _) zero_le trivial fun _ w' hat' hk' _ ↦ ?_
      exact ⟨hat'.congr (add_comm _ _), h.keeps hk' (by simp), fun _ h ↦ by cases h⟩
    dsimp only at hat1 ⊢
    split_ifs with hsuffices
    · exact hdrop hat1 h1
    refine tryPinResident_spec.seq hat1 (zero_add _).symm
      ((le_add_left le_rfl).trans le_self_add) trivial fun pinned w2 hat2 hk2 _ ↦ ?_
    have h2 := h1.keeps hk2 (by simp)
    cases pinned with
    | false => exact hdrop (hat2.congr (zero_add _)) h2
    | true =>
      refine ⟨hat2.congr ?_, h2, ?_⟩
      · rw [if_pos rfl]
        change {transient pte.frame} + ({lock (.space i)} + {ref pte.frame}) =
          _ + ({transient pte.frame} + {ref pte.frame})
        ac_rfl
      · rintro _ ⟨⟩
        exact ⟨hfound pte rfl, marked_of_suffices (Bool.not_eq_false _ ▸ hsuffices) hwrite⟩

theorem translateLocked_spec (ha : address < userAddressLimit)
    (hwrite : (accessFlags access).dirty = write) (spin : ℕ) :
    Triple μ 0 ({lock (.space i)} + c.sites) (Sound μ i ∅ c)
      (translateLocked i c address access write spin)
      (fun r ↦ {lock (.space i)} + r.2.1.sites + heldSites r.2.2)
      fun r s ↦ Sound μ i ∅ r.2.1 s ∧ Translated access (address / pageSize) c r := by
  intro s x w hK hat h
  unfold translateLocked
  refine (translateHit_spec hwrite).seq hat rfl zero_le h.tlb ?_
  rintro hit w1 hat1 hk1 ⟨htlb, hhit⟩
  have h1 : Sound μ i ∅ c w1.sys := ⟨h.wf, h.bound.keeps hk1, htlb,
    h.locked.keeps hk1 (c.table_le.trans le_self_add)⟩
  cases hit with
  | none => exact refillLocked_spec ha hwrite spin s x w1 hK (hat1.congr (by simp [heldSites])) h1
  | some pte =>
    refine ⟨hat1.congr ?_, h1, .refl _ c, fun h ↦ absurd h (Option.some_ne_none _), ?_⟩
    · ac_rfl
    · rintro _ ⟨⟩
      exact hhit pte rfl

theorem transferChunk_spec (within completed chunk : ℕ) (transfer : Transfer) :
    Spends μ {ref f} 0 (fun _ ↦ True) (transferChunk f within completed chunk transfer) := by
  cases transfer with
  | read length => exact frameRead_spec _ _
  | write bytes =>
    intro s x w hK hat _
    exact (frameWrite_spec _ _).seq (F := 0) hat rfl (by simpa using hK) trivial
      fun _ _ hat' _ _ ↦ ⟨hat', trivial⟩

/-- What the access to a part of page `k` does to the entries. -/
structure ChunkDone (access : Access) (k : ℕ) (c : Space) (r : Status × Space × List UInt8) :
    Prop where
  beside : Beside k c r.2.1
  touched : r.1 = .ok → ∃ pte, r.2.1.pageTable.pte k = some pte ∧ Marked access pte.flags

theorem accessChunk_spec (ha : address < userAddressLimit) (completed chunk : ℕ)
    {transfer : Transfer} (hwrite : (accessFlags access).dirty = transfer.isWrite) (spin : ℕ) :
    Triple μ 0 ({lock (.space i)} + c.sites) (Sound μ i ∅ c)
      (accessChunk i c address completed chunk access transfer spin)
      (fun r ↦ {lock (.space i)} + r.2.1.sites)
      fun r s ↦ Sound μ i ∅ r.2.1 s ∧ ChunkDone access (address / pageSize) c r := by
  have hdeny : Triple μ 0 ({lock (.space i)} + c.sites) (Sound μ i ∅ c)
      (accessChunk.deny i c address access) (fun r ↦ {lock (.space i)} + r.2.1.sites)
      fun r s ↦ Sound μ i ∅ r.2.1 s ∧ ChunkDone access (address / pageSize) c r := by
    intro s x w hK hat h
    refine (handlePageFaultLocked_spec _ _).first hat h ?_
    rintro ⟨⟨status, fault⟩, c1⟩ w1 hat1 - ⟨h1, hresolved⟩
    exact ⟨hat1.congr (add_zero _), h1, hresolved.beside, hresolved.entry⟩
  intro s x w hK hat h
  unfold accessChunk
  cases hv : c.vmaSnapshot.lookup address with
  | none => exact hdeny s x w hK hat h
  | some v =>
  by_cases hallowed : faultAccessIsAllowed v.prot access = false
  · dsimp only
    rw [if_pos hallowed]
    exact hdeny s x w hK hat h
  dsimp only
  rw [if_neg hallowed]
  refine (translateLocked_spec ha hwrite spin).first hat h ?_
  rintro ⟨status, c1, found⟩ w1 hat1 - ⟨h1, htranslated⟩
  rw [add_zero] at hat1
  cases found with
  | none => exact ⟨hat1.congr (by simp [heldSites]), h1, htranslated.beside,
      fun hok ↦ absurd hok (htranslated.missing rfl)⟩
  | some pte =>
    obtain ⟨hp, htouched⟩ := htranslated.found pte rfl
    have hchunk : ∀ {status : Status} {data : List UInt8},
        ChunkDone access (address / pageSize) c (status, c1, data) :=
      ⟨htranslated.beside, fun _ ↦ ⟨pte, hp, htouched⟩⟩
    -- the pin and the reference of the translation are given back
    have hdone : ∀ {w : World} {status : Status} {data : List UInt8},
        At μ s x ({lock (.space i)} + c1.sites + heldSites (some pte)) w →
        Sound μ i ∅ c1 w.sys → Prog.wp (rules μ)
          (do
            Code.store (.unpinResident pte.frame)
            frameRelease pte.frame
            pure (status, c1, data))
          (fun r w' ↦ At μ s x ({lock (.space i)} + r.2.1.sites) w' ∧
            Sound μ i ∅ r.2.1 w'.sys ∧ ChunkDone access (address / pageSize) c r) w := by
      intro w status data hat h
      refine unpinResident_spec.seq (F := {ref pte.frame} + ({lock (.space i)} + c1.sites)) hat
        ?_ (le_self_add.trans le_self_add) trivial fun _ w1 hat1 hk1 _ ↦ ?_
      · change _ + ({transient pte.frame} + {ref pte.frame}) = _
        ac_rfl
      refine release_spec.seq hat1 (zero_add _) zero_le trivial fun _ w2 hat2 hk2 _ ↦ ?_
      have hle : {lock (.space i)} + c1.pageTable.sites ≤ {lock (.space i)} + c1.sites :=
        add_le_add_right c1.table_le _
      refine ⟨hat2.congr (zero_add _), (h.keeps hk1 ?_).keeps hk2 (hle.trans le_self_add), hchunk⟩
      exact hle.trans ((le_add_left le_rfl).trans le_self_add)
    dsimp only at hat1 ⊢
    split_ifs
    · exact hdone hat1 h1
    · refine (transferChunk_spec _ _ _ _).seq hat1 (zero_add _).symm ?_ trivial ?_
      · exact ((le_add_left le_rfl).trans (le_add_left le_rfl)).trans le_self_add
      rintro ⟨status, data⟩ w2 hat2 hk2 -
      refine hdone (hat2.congr (zero_add _)) (h1.keeps hk2 ?_)
      exact (add_le_add_right c1.table_le _).trans (le_self_add.trans le_self_add)

/-- What an access to `completed` bytes leaves: the entries of their pages serve the access, and
the others are as they were. -/
structure AccessDone (access : Access) (address : ℕ) (c : Space) (completed : ℕ) (c' : Space) :
    Prop where
  snapshot : c'.vmaSnapshot = c.vmaSnapshot
  touched : ∀ a, address ≤ a → a < address + completed →
    ∃ pte, c'.pageTable.pte (a / pageSize) = some pte ∧ Marked access pte.flags

theorem AccessDone.zero : AccessDone access address c 0 c :=
  ⟨rfl, fun a hge hlt ↦ by omega⟩

/-- The next chunk lies in one page, and the pages of the bytes before it are others. -/
theorem AccessDone.failed {c0 c' : Space} {completed : ℕ}
    (h : AccessDone access address c0 completed c)
    (haligned : completed = 0 ∨ (address + completed) % pageSize = 0)
    (hb : Beside ((address + completed) / pageSize) c c') :
    AccessDone access address c0 completed c' := by
  refine ⟨hb.snapshot.trans h.snapshot, fun a hge hlt ↦ ?_⟩
  rw [hb.others]
  · exact h.touched a hge hlt
  · simp only [pageSize] at *
    omega

theorem AccessDone.step {c0 c' : Space} {completed chunk : ℕ} {data : List UInt8}
    (h : AccessDone access address c0 completed c)
    (haligned : completed = 0 ∨ (address + completed) % pageSize = 0)
    (hchunk : chunk ≤ pageSize - (address + completed) % pageSize)
    (hdone : ChunkDone access ((address + completed) / pageSize) c (.ok, c', data)) :
    AccessDone access address c0 (completed + chunk) c' := by
  have hold := h.failed haligned hdone.beside
  refine ⟨hold.snapshot, fun a hge hlt ↦ ?_⟩
  by_cases hbefore : a < address + completed
  · exact hold.touched a hge hbefore
  · have hpage : a / pageSize = (address + completed) / pageSize := by
      simp only [pageSize] at *
      omega
    rw [hpage]
    exact hdone.touched rfl

theorem accessLoop_spec {transfer : Transfer}
    (hlength : transfer.length ≤ userAddressLimit - address)
    (hwrite : (accessFlags access).dirty = transfer.isWrite) (spin fuel : ℕ) {completed : ℕ}
    (bytes : List UInt8) {c0 : Space} (hdone : AccessDone access address c0 completed c)
    (haligned : completed = 0 ∨ (address + completed) % pageSize = 0 ∨
      transfer.length ≤ completed) :
    Works μ 0 i c (accessLoop i address access transfer spin fuel c completed bytes)
      fun r _ ↦ AccessDone access address c0 r.1.2.1 r.2 := by
  induction fuel generalizing c completed bytes with
  | zero => exact .pure rfl fun _ h ↦ ⟨h, hdone⟩
  | succ fuel ih =>
    intro s x w hK hat h
    unfold accessLoop
    by_cases hmore : completed < transfer.length
    · rw [if_pos hmore]
      have hpages : completed = 0 ∨ (address + completed) % pageSize = 0 := by omega
      refine (accessChunk_spec (by omega) _ _ hwrite _).first hat h ?_
      rintro ⟨status, c1, data⟩ w1 hat1 - ⟨h1, hchunk⟩
      rw [add_zero] at hat1
      dsimp only
      split_ifs with hstatus
      · exact ⟨hat1, h1, hdone.failed hpages hchunk.beside⟩
      · rw [not_not.1 hstatus] at hchunk
        refine ih _ (hdone.step hpages (Nat.min_le_right _ _) hchunk) ?_ s x w1 hK hat1 h1
        have hlt := Nat.mod_lt (address + completed) (show 0 < pageSize by decide)
        simp only [pageSize] at hlt ⊢
        omega
    · rw [if_neg hmore]
      exact ⟨hat, h, hdone⟩

theorem length_le_of_validate {length : ℕ} (h : accessValidate address length = .ok) :
    length ≤ userAddressLimit - address := by
  by_contra hlong
  rw [accessValidate, if_pos (.inr (.inr (not_le.1 hlong)))] at h
  cases h

theorem accessMemory_spec {transfer : Transfer}
    (hwrite : (accessFlags access).dirty = transfer.isWrite) (spin : ℕ) :
    Spends μ 0 0 (fun s ↦ i < s.nextSpace) (accessMemory i address access transfer spin) := by
  rw [accessMemory]
  refine .ite (fun _ ↦ .pure rfl fun _ _ ↦ trivial) fun hvalid ↦ ?_
  rw [not_or, not_not] at hvalid
  exact withLock_plain fun c _ ↦ (accessLoop_spec (length_le_of_validate hvalid.1) hwrite spin _ []
    .zero (.inl rfl)).post fun _ _ h ↦ h.1

end Space

end MiniMM
