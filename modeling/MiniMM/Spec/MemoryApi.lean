import MiniMM.MemoryApi
import MiniMM.Spec.Move

/-!
# Specifications of the memory calls

`minimm_msync`, `minimm_mincore`, `minimm_munlock` and `minimm_madvise`.
-/

namespace MiniMM

open Handle Vma PageTable VmaSnapshot

namespace Space

variable {μ ν : Mode} {F x : Multiset Handle} {i : SpaceId} {bad : Set ℕ} {c : Space}
  {t t' : PageTable}
  {g : ℕ → Option Pte} {k start stop : ℕ} {pte : Pte} {set clear : PteFlags} {protection : Prot}
  {s : Sys} {w : World}

/-- The TLB agrees with a table, and the frames of its locked entries are resident. -/
def TableOk (μ : Mode) (i : SpaceId) (bad : Set ℕ) (t : PageTable) (s : Sys) : Prop :=
  Tlb.All (Agrees t) i s ∧ t.LockedResident μ s bad

theorem stale_of_update {entry : Option Pte} (htlb : Tlb.All (Agrees t) i s) (hg : t.Has g)
    (hg' : t'.Has (Function.update g k entry)) :
    Tlb.All (fun e ↦ e.virtualPage = k ∨ Agrees t' e) i s := by
  refine htlb.mono fun e he ↦ ?_
  by_cases hpage : e.virtualPage = k
  · exact .inl hpage
  · right
    rw [Agrees, hg'.pte, Function.update_of_ne hpage, ← hg.pte]
    exact he

theorem invalidateStale_spec (hk : k * pageSize < userAddressLimit) :
    Triple μ 0 {lock (.space i)} (Tlb.All (fun e ↦ e.virtualPage = k ∨ Agrees t e) i)
      (Tlb.invalidatePage i (k * pageSize)) (fun _ ↦ {lock (.space i)})
      fun _ s ↦ Tlb.All (Agrees t) i s := by
  refine (Tlb.invalidatePage_spec _).post fun _ s h ↦ ?_
  refine h.mono fun e he ↦ he.1.resolve_left ?_
  have hne := he.2 hk
  rwa [Nat.mul_div_cancel _ (by decide)] at hne

theorem revise_seq {β : Type} {f : Status × PageTable → Code β} {q : PageTable → Code β}
    {R : β → World → Prop} {H : Multiset Handle} (hg : t.Has g) (hk : g k = some pte)
    (hset : set.present = false) (hclear : clear.present = false)
    (hmeets : set.meets clear = false) (hbad : set.locked = true → k ∈ bad)
    (hf : ∀ t', f (.ok, t') = Tlb.invalidatePage i (k * pageSize) >>= fun _ ↦ q t')
    (hat : At μ s x H w) (hH : H = {lock (.space i)} + t.sites + F)
    (hok : TableOk ν i bad t w.sys)
    (hq : ∀ t' w', t'.Has (Function.update g k
      (some (revised pte pte.frame protection set clear))) →
      At μ s x ({lock (.space i)} + t'.sites + F) w' → Keeps (F + x) w.sys w'.sys →
      TableOk ν i bad t' w'.sys → Prog.wp (rules μ) (q t') R w') :
    Prog.wp (rules μ) (t.updateAttributes (k * pageSize) protection set clear >>= f) R w := by
  refine (updateAttributes_at hg hk hset hclear hmeets hbad).seq (F := {lock (.space i)} + F) hat
    (hH.trans (by ac_rfl)) zero_le hok.2 ?_
  rintro ⟨status, t'⟩ w1 hat1 hk1 ⟨hlocked, hstatus, hhas⟩
  dsimp only at hstatus
  subst hstatus
  have htlb := stale_of_update (hok.1.keeps hk1 (by simp)) hg hhas
  rw [hf]
  refine (invalidateStale_spec (hg.user hk)).seq (F := t'.sites + F) hat1 (by ac_rfl) zero_le htlb
    fun _ w2 hat2 hk2 htlb2 ↦ ?_
  refine hq t' w2 hhas (hat2.congr (add_assoc _ _ _).symm) ?_ ⟨htlb2, hlocked.keeps hk2 ?_⟩
  · exact (hk1.mono (add_le_add_left (le_add_left le_rfl) _)).trans
      (hk2.mono (add_le_add_left (le_add_left le_rfl) _))
  · exact le_self_add.trans le_self_add

/-! ## Sweeps that keep the mappings -/

theorem Fits.swept {f : ℕ → Pte → Option Pte} (h : c.Fits g)
    (hf : ∀ p v pte pte', PteOk v pte → f p pte = some pte' → PteOk v pte') :
    c.Fits (swept start stop f g) := by
  intro p pte hp
  by_cases hin : Within start stop p
  · rw [swept_of_within hin, Option.bind_eq_some_iff] at hp
    obtain ⟨old, hold, hnew⟩ := hp
    obtain ⟨v, hv, hok⟩ := h p old hold
    exact ⟨v, hv, hf p v old pte hok hnew⟩
  · rw [swept_of_not hin] at hp
    exact h p pte hp

theorem Sound.setTable (h : c.Wf) (hb : c.Bound s) (ht : t.Has g) (hg : c.Fits g)
    (hok : TableOk μ i bad t s) : Sound μ i bad (c.setTable t) s :=
  ⟨h.setTable ht hg, hb, hok.1, hok.2⟩

/-- An entry with flags taken away, if it has them. -/
def stripped (wanted : PteFlags → Bool) (clear : PteFlags) (pte : Pte) : Pte :=
  if wanted pte.flags then revised pte pte.frame pte.protection {} clear else pte

theorem PteOk.stripped {v : Vma} {wanted : PteFlags → Bool} (h : PteOk v pte)
    (hclear : clear.cow = false ∧ clear.shared = false ∧ clear.present = false) :
    PteOk v (stripped wanted clear pte) := by
  rw [Space.stripped]
  split_ifs
  · exact PteOk.flagged h _ ⟨rfl, rfl⟩ hclear
  · exact h

theorem Sound.tableOk (h : Sound μ i bad c s) : TableOk μ i bad c.pageTable s := ⟨h.tlb, h.locked⟩

theorem TableOk.keeps {s' : Sys} (h : TableOk μ i bad t s) (hk : Keeps x s s')
    (hx : {lock (.space i)} + t.sites ≤ x) : TableOk μ i bad t s' :=
  ⟨h.1.keeps hk (Multiset.singleton_le.1 (le_self_add.trans hx)),
    h.2.keeps hk ((le_add_left le_rfl).trans hx)⟩

/-! ## Unlocking -/

theorem munlockBody_spec (hg : t.Has g) (hk : g k = some pte) :
    Triple μ 0 ({lock (.space i)} + t.sites) (TableOk μ i ∅ t) (munlockBody i t (k * pageSize))
      (fun r ↦ {lock (.space i)} + r.2.sites)
      fun r s ↦ r.1 = .ok ∧ r.2.Has (Function.update g k
        (some (stripped PteFlags.locked { locked := true } pte))) ∧ TableOk μ i ∅ r.2 s := by
  intro s x w hK hat hok
  rw [munlockBody, hg.lookup_page, hk]
  dsimp only
  rw [stripped]
  by_cases hlocked : pte.flags.locked = true
  · rw [if_pos hlocked, if_pos hlocked]
    refine revise_seq (F := 0) hg hk rfl rfl rfl nofun (fun _ ↦ rfl) hat (add_zero _).symm hok
      fun t' w' hhas hat' _ hok' ↦ ?_
    exact ⟨hat'.congr (add_zero _), rfl, hhas, hok'⟩
  · rw [if_neg hlocked, if_neg hlocked]
    exact ⟨hat, rfl, hg.congr fun p ↦ by rw [← hk, Function.update_eq_self], hok⟩

/-- A space whose entries in an interval have lost a flag. -/
structure Stripped (start stop : ℕ) (wanted : PteFlags → Bool) (clear : PteFlags) (c c' : Space) :
    Prop where
  entries : ∀ p, c'.pageTable.pte p =
    swept start stop (fun _ pte ↦ some (stripped wanted clear pte)) c.pageTable.pte p
  rest : c.setTable c'.pageTable = c'

theorem Sound.stripped {wanted : PteFlags → Bool} (h : c.Wf) (hb : c.Bound s)
    (hclear : clear.cow = false ∧ clear.shared = false ∧ clear.present = false)
    (ht : t.Has (swept start stop (fun _ pte ↦ some (stripped wanted clear pte)) c.pageTable.pte))
    (hok : TableOk μ i bad t s) : Sound μ i bad (c.setTable t) s := by
  refine .setTable h hb ht (Fits.swept h.entry fun p v pte pte' hpte hnew ↦ ?_) hok
  rw [← Option.some.inj hnew]
  exact PteOk.stripped hpte hclear

theorem memoryPrepareRange_range {address length : ℕ} {r : MemoryRange}
    (h : memoryPrepareRange address length = some r) :
    r.start = address ∧ r.start < r.stop ∧ r.stop ≤ userAddressLimit ∧ r.start % pageSize = 0 ∧
      r.stop % pageSize = 0 := by
  unfold memoryPrepareRange at h
  dsimp only at h
  split_ifs at h with hbad hlimit
  cases h
  dsimp only
  simp only [pageSize, userAddressLimit] at *
  refine ⟨trivial, ?_, ?_, ?_, ?_⟩ <;> omega

theorem memoryPrepareLockRange_range {address length : ℕ} {r : MemoryRange}
    (h : memoryPrepareLockRange address length = some r) :
    (r.start ≤ address ∧ address + length ≤ r.stop) ∧ r.start < r.stop ∧
      r.stop ≤ userAddressLimit ∧ r.start % pageSize = 0 ∧ r.stop % pageSize = 0 := by
  unfold memoryPrepareLockRange at h
  dsimp only at h
  rw [pageOf_eq] at h
  split_ifs at h with hbad hlength hlimit
  cases h
  dsimp only
  simp only [pageSize, userAddressLimit] at *
  refine ⟨⟨?_, ?_⟩, ?_, ?_, ?_, ?_⟩ <;> omega

theorem munlockLocked_spec {r : MemoryRange} (hlt : r.start < r.stop)
    (hlimit : r.stop ≤ userAddressLimit) (hstart : r.start % pageSize = 0)
    (hstop : r.stop % pageSize = 0) :
    Works μ 0 i c (do
        let (status, t) ← c.pageTable.walkRange r.start r.stop (munlockBody i)
        Pure.pure (status, c.setTable t)) fun q _ ↦ q.1 = .ok ∧
      Stripped r.start r.stop PteFlags.locked { locked := true } c q.2 := by
  intro s x w hK hat h
  refine (sweep_spec (J := TableOk μ i ∅) (X := {lock (.space i)}) _ h.wf.has hlt.le hlimit hstart
    hstop fun k t g pte _ hg hk ↦ munlockBody_spec hg hk).seq (F := bindingSites c.bindings) hat
    (add_assoc _ _ _).symm zero_le h.tableOk ?_
  rintro ⟨status, t⟩ w1 hat1 hk1 ⟨rfl, hhas, hok⟩
  refine ⟨hat1.congr (add_assoc _ _ _), ?_, rfl, hhas.pte, rfl⟩
  exact .stripped h.wf (h.bound.keeps hk1) ⟨rfl, rfl, rfl⟩ hhas hok

theorem withMappedRange_space {α : Type} {r : MemoryRange} {failed : Status → α}
    {body : Space → Code (α × Space)} {K : Multiset Handle} {R : Space → α × Space → Prop}
    (hfailed : ∀ c status, status ≠ .ok → R c (failed status, c))
    (hbody : ∀ c, c.closing = false →
      Works μ K i c (body c) fun r _ ↦ R c r) :
    Triple μ K 0 (fun s ↦ i < s.nextSpace) (withMappedRange i r failed body) (fun _ ↦ 0)
      fun r s ↦ s.held (.space i) = false ∧ ∃ c, R c (r, s.space i) :=
  withLock_space (fun c _ ↦ hfailed c .busy (by decide)) fun c hc ↦
    .ite (fun hstatus ↦ .pure rfl fun _ h ↦ ⟨h, hfailed c _ hstatus⟩) fun _ ↦ hbody c hc

theorem withMappedRange_spec {α : Type} {r : MemoryRange} {failed : Status → α}
    {body : Space → Code (α × Space)} {K : Multiset Handle}
    (hbody : ∀ c, c.closing = false →
      Triple μ K ({lock (.space i)} + c.sites) (Sound μ i ∅ c) (body c)
        (fun r ↦ {lock (.space i)} + r.2.sites) fun r s ↦ Sound μ i ∅ r.2 s) :
    Spends μ K 0 (fun s ↦ i < s.nextSpace) (withMappedRange i r failed body) :=
  withLock_plain fun c hc ↦ .ite (fun _ ↦ .pure rfl fun _ h ↦ h) fun _ ↦ hbody c hc

theorem memoryValidateEmptyRange_spec (address : ℕ) (requireAlignment : Bool) :
    Spends μ 0 0 (fun _ ↦ True) (memoryValidateEmptyRange i address requireAlignment) :=
  .ite (fun _ ↦ .pure rfl fun _ h ↦ h) fun _ ↦ emptyRangeStatus_spec

theorem munlock_spec (address length : ℕ) :
    Spends μ 0 0 (fun s ↦ i < s.nextSpace) (munlock i address length) := by
  refine .ite (fun _ ↦ ?_) fun _ ↦ ?_
  · exact (memoryValidateEmptyRange_spec _ _).pre (fun _ _ ↦ trivial)
  split
  · exact .pure rfl fun _ _ ↦ trivial
  next r hr =>
  obtain ⟨-, hlt, hlimit, hstart, hstop⟩ := memoryPrepareLockRange_range hr
  exact withMappedRange_spec fun c _ ↦ (munlockLocked_spec hlt hlimit hstart hstop).post
    fun _ _ h ↦ h.1

/-! ## Synchronisation -/

theorem clearDirtyLocked_spec (hg : t.Has g) (hle : start ≤ stop) (hlimit : stop ≤ userAddressLimit)
    (hstart : start % pageSize = 0) (hstop : stop % pageSize = 0) :
    Triple μ 0 ({lock (.space i)} + t.sites) (TableOk μ i bad t) (clearDirtyLocked i t start stop)
      (fun t' ↦ {lock (.space i)} + t'.sites)
      fun t' s ↦ t'.Has (swept start stop
        (fun _ pte ↦ some (stripped PteFlags.dirty { dirty := true } pte)) g) ∧
          TableOk μ i bad t' s := by
  intro s x w hK hat hok
  refine (sweep_spec (J := TableOk μ i bad) (X := {lock (.space i)})
    (fun _ pte ↦ some (stripped PteFlags.dirty { dirty := true } pte)) hg hle hlimit hstart
    hstop fun k t g pte _ hg hk ↦ ?_).first hat hok ?_
  · intro s x w hK hat hok
    rw [hg.lookup_page, hk]
    dsimp only
    rw [stripped]
    by_cases hdirty : pte.flags.dirty = true
    · rw [if_pos hdirty, if_pos hdirty]
      refine revise_seq (F := 0) hg hk rfl rfl rfl nofun (fun _ ↦ rfl) hat (add_zero _).symm hok
        fun t' w' hhas hat' _ hok' ↦ ?_
      exact ⟨hat'.congr (add_zero _), rfl, hhas, hok'⟩
    · rw [if_neg hdirty, if_neg hdirty]
      exact ⟨hat, rfl, hg.congr fun p ↦ by rw [← hk, Function.update_eq_self], hok⟩
  · rintro ⟨status, t'⟩ w1 hat1 - ⟨-, hhas, hok'⟩
    exact ⟨hat1.congr (add_zero _), hhas, hok'⟩

theorem msyncChunk_spec {mapping : Vma} {b : Binding} (hb : b ∈ c.bindings) (hle : start ≤ stop)
    (hlimit : stop ≤ userAddressLimit) (hstart : start % pageSize = 0)
    (hstop : stop % pageSize = 0) :
    Works μ 0 i c (msyncChunk i c mapping b.backing start stop) fun r _ ↦
      r.2 = c ∨ Stripped start stop PteFlags.dirty { dirty := true } c r.2 := by
  intro s x w hK hat h
  have hmem : backing b.backing ∈ w.mine := by
    refine Multiset.mem_of_le hat.le (Multiset.mem_add.2 (.inr ?_))
    exact Inv.binding_mem hb
  refine backingInfo_spec.seq hat (zero_add _).symm
    ((backing_le hb).trans ((le_add_left le_rfl).trans le_self_add)) (hat.inv.backingIs hmem) ?_
  rintro _ w1 hat1 hk1 ⟨rfl, -⟩
  rw [zero_add] at hat1
  have h1 := h.keeps_sites hk1 le_rfl
  split
  · exact ⟨hat1, h1, .inl rfl⟩
  next n hn =>
  by_cases hkind : (w.sys.backingInfo b.backing).kind = .noteShared
  swap
  · rw [if_neg hkind]
    exact ⟨hat1, h1, .inl rfl⟩
  rw [if_pos hkind]
  have hn1 := (hat.inv.backing_note hmem hn).trans_le hk1.nextNote
  refine (Note.syncRange_spec _ _).aside hat1 hn1
    fun status w2 hat2 hk2 _ ↦ ?_
  rw [zero_add] at hat2
  have h2 := h1.keeps_sites hk2 le_rfl
  by_cases hstatus : status ≠ .ok
  · rw [if_pos hstatus]
    exact ⟨hat2, h2, .inl rfl⟩
  rw [if_neg hstatus]
  refine (clearDirtyLocked_spec h.wf.has hle hlimit hstart hstop).seq (F := bindingSites c.bindings)
    hat2 (add_assoc _ _ _).symm zero_le h2.tableOk fun t w3 hat3 hk3 ⟨hhas, hok⟩ ↦ ?_
  refine ⟨hat3.congr (add_assoc _ _ _), ?_, .inr ⟨hhas.pte, rfl⟩⟩
  exact .stripped h.wf (h2.bound.keeps hk3) ⟨rfl, rfl, rfl⟩ hhas hok

theorem chunk_range {s : VmaSnapshot} {mapping : Vma} {page : ℕ} (h : s.Good)
    (hfound : s.findNext page = some mapping) (hle : ¬mapping.start > page) (hpage : page < stop)
    (hlimit : stop ≤ userAddressLimit) (hstop : stop % pageSize = 0) :
    s.lookup page = some mapping ∧ page < min mapping.stop stop ∧
      min mapping.stop stop ≤ userAddressLimit ∧ min mapping.stop stop % pageSize = 0 := by
  have hlookup := (lookup_iff_findNext h.ordered h.root).2 ⟨hfound, not_lt.1 hle⟩
  obtain ⟨hmem, -, hlt⟩ := (lookup_eq_some h).1 hlookup
  refine ⟨hlookup, lt_min hlt hpage, (min_le_right _ _).trans hlimit, ?_⟩
  rcases min_choice mapping.stop stop with hmin | hmin
  · rw [hmin]
    exact (h.ordered.valid mapping hmem).stopAligned
  · rw [hmin, hstop]

theorem msyncLoop_spec (hlimit : stop ≤ userAddressLimit) (hstop : stop % pageSize = 0) (fuel : ℕ)
    {page : ℕ} (hpage : page % pageSize = 0) (unmapped : Status) :
    Triple μ 0 ({lock (.space i)} + c.sites) (Sound μ i ∅ c)
      (msyncLoop i stop fuel c page unmapped) (fun r ↦ {lock (.space i)} + r.2.sites)
      fun r s ↦ Sound μ i ∅ r.2 s := by
  induction fuel generalizing c page unmapped with
  | zero => exact .pure rfl fun _ h ↦ h
  | succ fuel ih =>
    rw [msyncLoop]
    refine .ite (fun hlt ↦ ?_) fun _ ↦ .pure rfl fun _ h ↦ h
    intro s x w hK hat h
    cases hfound : c.vmaSnapshot.findNext page with
    | none => exact ⟨hat, h⟩
    | some mapping =>
      dsimp only
      by_cases hgap : mapping.start > page
      · rw [if_pos hgap]
        refine ih ?_ .notFound s x w hK hat h
        have hmem : mapping ∈ c.vmaSnapshot.ranges := by
          rw [findNext_eq h.wf.snapshot.ordered] at hfound
          split_ifs at hfound
          exact List.mem_of_find?_eq_some hfound
        rcases min_choice mapping.start stop with hmin | hmin
        · rw [hmin]
          exact (h.wf.snapshot.ordered.valid mapping hmem).startAligned
        · rw [hmin, hstop]
      rw [if_neg hgap]
      obtain ⟨hlookup, hless, hbelow, haligned⟩ :=
        chunk_range h.wf.snapshot hfound hgap hlt hlimit hstop
      obtain ⟨b, hb, hbinding, -⟩ := h.binding hlookup
      rw [hbinding]
      dsimp only
      refine (msyncChunk_spec hb hless.le hbelow hpage haligned).first hat h ?_
      rintro ⟨status, c'⟩ w1 hat1 - ⟨h1, -⟩
      rw [add_zero] at hat1
      dsimp only
      split_ifs
      · exact ⟨hat1, h1⟩
      · exact ih haligned unmapped s x w1 hK hat1 h1

theorem msync_spec (address length : ℕ) :
    Spends μ 0 0 (fun s ↦ i < s.nextSpace) (msync i address length) := by
  refine .ite (fun _ ↦ ?_) fun _ ↦ ?_
  · exact (memoryValidateEmptyRange_spec _ _).pre (fun _ _ ↦ trivial)
  split
  · exact .pure rfl fun _ _ ↦ trivial
  next r hr =>
  obtain ⟨-, -, hlimit, hstart, hstop⟩ := memoryPrepareRange_range hr
  exact withLock_plain fun c _ ↦ msyncLoop_spec hlimit hstop _ hstart _

/-! ## Residency -/

theorem getState_spec {f : FrameId} :
    Spends μ {ref f} 0 (fun _ ↦ True) (Code.store (.getState f)) :=
  frame_spec (o := .getState f) fun _ hx g hg ↦ by cases hg; exact hx

theorem mincorePage_spec (page : ℕ) :
    Triple μ 0 ({lock (.space i)} + c.sites) (Sound μ i ∅ c) (mincorePage c page)
      (fun _ ↦ {lock (.space i)} + c.sites) fun _ s ↦ Sound μ i ∅ c s := by
  intro s x w hK hat h
  unfold mincorePage
  cases hlookup : c.vmaSnapshot.lookup page with
  | none => exact ⟨hat, h⟩
  | some mapping =>
    dsimp only
    cases hpte : c.pteAt page with
    | some pte =>
      rw [h.wf.pteAt] at hpte
      dsimp only [mincorePresent]
      rw [Prog.bind_assoc]
      refine getState_spec.seq hat (zero_add _).symm
        ((ref_le hpte).trans ((le_add_left le_rfl).trans le_self_add)) trivial
        fun state w1 hat1 hk1 _ ↦ ⟨hat1.congr (zero_add _), h.keeps_sites hk1 le_rfl⟩
    | none =>
      dsimp only
      obtain ⟨b, hb, hbinding, -⟩ := h.binding hlookup
      rw [hbinding]
      dsimp only [mincoreCached]
      have hsplit : {lock (.space i)} + c.sites = {backing b.backing} +
          ({lock (.space i)} + c.pageTable.sites + bindingSites (c.bindings.erase b)) := by
        rw [sites_eq, Binding.sites_of_mem hb]
        ac_rfl
      refine (Backing.peekFrame_spec _).seq hat hsplit zero_le trivial ?_
      rintro ⟨status, f⟩ w1 hat1 hk1 -
      have h1 := h.keeps hk1 (le_self_add.trans le_self_add)
      dsimp only at hat1 ⊢
      by_cases hok : status = .ok
      · rw [if_pos hok]
        rw [hok, got_ok] at hat1
        refine getState_spec.seq hat1 (zero_add _).symm
          ((le_add_left le_rfl).trans (le_self_add.trans le_self_add)) trivial
          fun state w2 hat2 hk2 _ ↦ ?_
        have h2 := h1.keeps hk2 (by
          refine le_trans ?_ le_self_add
          exact le_self_add.trans (le_add_left le_rfl))
        refine release_spec.seq (F := {lock (.space i)} + c.sites) hat2 ?_ zero_le trivial
          fun _ w3 hat3 hk3 _ ↦ ⟨hat3.congr (zero_add _), h2.keeps_sites hk3 le_rfl⟩
        rw [hsplit]
        ac_rfl
      · rw [if_neg hok]
        rw [got_of_ne hok, add_zero, ← hsplit] at hat1
        split_ifs
        · exact ⟨hat1, h1⟩
        · exact ⟨hat1, h1⟩

theorem mincoreLoop_spec (pages page : ℕ) (flags : List MincoreFlags) :
    Triple μ 0 ({lock (.space i)} + c.sites) (Sound μ i ∅ c) (mincoreLoop c pages page flags)
      (fun _ ↦ {lock (.space i)} + c.sites) fun _ s ↦ Sound μ i ∅ c s := by
  induction pages generalizing page flags with
  | zero => exact .pure rfl fun _ h ↦ h
  | succ pages ih =>
    intro s x w hK hat h
    refine (mincorePage_spec page).first hat h ?_
    rintro ⟨status, pageFlags⟩ w1 hat1 - h1
    rw [add_zero] at hat1
    dsimp only
    split_ifs
    · exact ⟨hat1, h1⟩
    · exact ih _ _ s x w1 hK hat1 h1

theorem mincore_spec (address length count : ℕ) :
    Spends μ 0 0 (fun s ↦ i < s.nextSpace) (mincore i address length count) := by
  refine .ite (fun _ ↦ ?_) fun _ ↦ ?_
  · intro s x w hK hat _
    exact (memoryValidateEmptyRange_spec _ _).next hat trivial
      fun _ w1 hat1 _ _ ↦ ⟨hat1, trivial⟩
  split
  · exact .pure rfl fun _ _ ↦ trivial
  refine .guard fun _ ↦ withMappedRange_spec fun c _ ↦ ?_
  intro s x w hK hat h
  exact (mincoreLoop_spec _ _ []).first hat h
    fun _ w1 hat1 _ h1 ↦ ⟨hat1.congr (add_zero _), h1⟩

/-! ## Advice -/

theorem walkLook_spec {body : PageTable → ℕ → Code (Status × PageTable)} (hg : t.Has g)
    (hle : start ≤ stop) (hlimit : stop ≤ userAddressLimit) (hstart : start % pageSize = 0)
    (hstop : stop % pageSize = 0)
    (hbody : ∀ k pte, g k = some pte → Triple μ {ref pte.frame} 0 (fun _ ↦ True)
      (body t (k * pageSize)) (fun _ ↦ 0) fun r _ ↦ r.2 = t) :
    Spends μ t.sites 0 (fun _ ↦ True) (t.walkRange start stop body) := by
  obtain ⟨a, rfl⟩ : ∃ a, start = a * pageSize :=
    ⟨_, (Nat.div_mul_cancel (Nat.dvd_of_mod_eq_zero hstart)).symm⟩
  obtain ⟨b, rfl⟩ : ∃ b, stop = b * pageSize :=
    ⟨_, (Nat.div_mul_cancel (Nat.dvd_of_mod_eq_zero hstop)).symm⟩
  have hab : a ≤ b := Nat.le_of_mul_le_mul_right hle (by decide)
  rw [walkRange]
  have hwalk : ∀ fuel k, a ≤ k → k ≤ b → Spends μ t.sites 0 (fun _ ↦ True)
      (walk body fuel t (k * pageSize) (b * pageSize)) := by
    intro fuel
    induction fuel with
    | zero => exact fun _ _ _ ↦ .pure rfl fun _ h ↦ h
    | succ fuel ih =>
      intro k hak hkb s x w hK hat _
      rw [walk]
      rcases hg.findNext hkb hlimit with
        ⟨p, pte, hfound, hkp, hpb, hpte, -⟩ | ⟨⟨e, hfound⟩, -⟩
      · rw [hfound]
        have href : {ref pte.frame} ≤ t.sites := Multiset.singleton_le.2
          (Multiset.mem_of_le (Inv.pte_sites_le (by rw [hg.pte, hpte])) (Inv.ref_mem_sites pte))
        refine (hbody p pte hpte).seq (F := 0) hat rfl
          (href.trans (hK.trans (le_add_left le_rfl))) trivial ?_
        rintro ⟨status, t'⟩ w1 hat1 - rfl
        dsimp only
        split_ifs
        · exact ⟨hat1, trivial⟩
        · have hnext : p * pageSize + pageSize = (p + 1) * pageSize := (Nat.succ_mul _ _).symm
          rw [hnext]
          exact ih (p + 1) (by omega) hpb s x w1 hK hat1 trivial
      · rw [hfound]
        exact ⟨hat, trivial⟩
  exact hwalk _ a le_rfl hab

/-- Code that leaves a space alone. -/
def Leaves (μ : Mode) (i : SpaceId) (c : Space) {α : Type} (p : Code α) : Prop :=
  Triple μ 0 ({lock (.space i)} + c.sites) (Sound μ i ∅ c) p
    (fun _ ↦ {lock (.space i)} + c.sites) fun _ s ↦ Sound μ i ∅ c s

theorem leaves_of_borrow {α : Type} {p : Code α}
    (h : Spends μ c.sites 0 (fun _ ↦ True) p) : Leaves μ i c p := by
  intro s x w hK hat hs
  refine h.tail hat (zero_add _).symm ((le_add_left le_rfl).trans le_self_add) trivial
    fun r w1 hat1 hk1 _ ↦ ⟨hat1.congr (zero_add _), hs.keeps_sites hk1 le_rfl⟩

theorem Leaves.bind {α β : Type} {p : Code α} {f : α → Code β} (h : Leaves μ i c p)
    (hf : ∀ a, Leaves μ i c (f a)) : Leaves μ i c (p >>= f) := by
  intro s x w hK hat hs
  exact h.first hat hs fun r w1 hat1 _ h1 ↦
    hf r s x w1 hK (hat1.congr (add_zero _)) h1

theorem Leaves.pure {α : Type} (a : α) : Leaves μ i c (Pure.pure a : Code α) :=
  Triple.pure rfl fun _ h ↦ h

theorem Leaves.ite {α : Type} {q : Prop} [Decidable q] {p p' : Code α} (h : q → Leaves μ i c p)
    (h' : ¬q → Leaves μ i c p') : Leaves μ i c (if q then p else p') := Triple.ite h h'

theorem ensureResident_leaves {page : ℕ} (hpte : c.pageTable.pte page = some pte) :
    Leaves μ i c (frameEnsureResident pte.frame) :=
  leaves_of_borrow ((frameEnsureResident_spec.borrow (ref_le hpte)).post fun _ _ _ ↦ trivial)

theorem willneedPage_leaves (h : c.Wf) {mapping : Vma} {b : Binding} (hb : b ∈ c.bindings)
    (page : ℕ) : Leaves μ i c (willneedPage c mapping b.backing page) := by
  unfold willneedPage
  cases hpte : c.pteAt page with
  | some pte =>
    rw [h.pteAt] at hpte
    exact (ensureResident_leaves hpte).bind fun _ ↦ .pure _
  | none =>
    intro s x w hK hat hs
    have hsplit : {lock (.space i)} + c.sites = {backing b.backing} +
        ({lock (.space i)} + c.pageTable.sites + bindingSites (c.bindings.erase b)) := by
      rw [sites_eq, Binding.sites_of_mem hb]
      ac_rfl
    refine (Backing.getFrame_spec _).seq hat hsplit zero_le trivial ?_
    rintro ⟨status, f, created⟩ w1 hat1 hk1 -
    have h1 := hs.keeps hk1 (le_self_add.trans le_self_add)
    dsimp only at hat1 ⊢
    by_cases hok : status ≠ .ok
    · rw [if_pos hok]
      rw [got_of_ne hok, add_zero, ← hsplit] at hat1
      exact ⟨hat1, h1⟩
    rw [if_neg hok]
    rw [not_not.1 hok, got_ok] at hat1
    have hat1' : At μ s x ({ref f} + ({lock (.space i)} + c.sites)) w1 := hat1.congr (by
      rw [hsplit]
      ac_rfl)
    refine frameEnsureResident_spec.seq hat1' (zero_add _).symm
      (le_self_add.trans le_self_add) trivial fun r w2 hat2 hk2 _ ↦ ?_
    have h2 := h1.keeps_sites hk2 (le_add_left le_rfl)
    refine release_spec.seq hat2 (zero_add _) zero_le trivial fun _ w3 hat3 hk3 _ ↦ ?_
    exact ⟨hat3.congr (zero_add _), h2.keeps_sites hk3 le_rfl⟩

theorem willneedPages_leaves (h : c.Wf) {mapping : Vma} {b : Binding} (hb : b ∈ c.bindings)
    (pages page : ℕ) : Leaves μ i c (willneedPages c mapping b.backing pages page) := by
  induction pages generalizing page with
  | zero => exact .pure _
  | succ pages ih =>
    exact (willneedPage_leaves h hb page).bind fun status ↦ .ite (fun _ ↦ .pure _) fun _ ↦ ih _

theorem willneedChunk_leaves (h : c.Wf) {mapping : Vma} {b : Binding} (hb : b ∈ c.bindings)
    (kind : BackingKind) (hle : start ≤ stop) (hlimit : stop ≤ userAddressLimit)
    (hstart : start % pageSize = 0) (hstop : stop % pageSize = 0) :
    Leaves μ i c (willneedChunk c mapping b.backing kind start stop) := by
  refine .ite (fun _ ↦ willneedPages_leaves h hb _ _) fun _ ↦ .bind ?_ fun _ ↦ .pure _
  refine leaves_of_borrow ((walkLook_spec h.has hle hlimit hstart hstop fun k pte hk ↦ ?_).borrow
    c.table_le)
  unfold willneedBody
  rw [h.has.lookup_page, hk]
  intro s x w hK hat _
  exact frameEnsureResident_spec.seq (F := 0) hat rfl (hK.trans (le_add_left le_rfl)) trivial
    fun _ w1 hat1 _ _ ↦ ⟨hat1, rfl⟩

theorem willneedLocked_leaves (hlimit : stop ≤ userAddressLimit) (hstop : stop % pageSize = 0)
    (fuel : ℕ) {cursor : ℕ} (hcursor : cursor % pageSize = 0) :
    Leaves μ i c (willneedLocked c stop fuel cursor) := by
  induction fuel generalizing cursor with
  | zero => exact .pure _
  | succ fuel ih =>
    rw [willneedLocked]
    refine .ite (fun hlt ↦ ?_) fun _ ↦ .pure _
    intro s x w hK hat h
    cases hfound : c.vmaSnapshot.findNext cursor with
    | none => exact ⟨hat, h⟩
    | some mapping =>
      dsimp only
      by_cases hgap : mapping.start > cursor
      · rw [if_pos hgap]
        exact ⟨hat, h⟩
      rw [if_neg hgap]
      obtain ⟨hlookup, hless, hbelow, haligned⟩ :=
        chunk_range h.wf.snapshot hfound hgap hlt hlimit hstop
      obtain ⟨b, hb, hbinding, -⟩ := h.binding hlookup
      rw [hbinding]
      dsimp only
      have hinfo : Leaves μ i c (Backing.info b.backing) :=
        leaves_of_borrow (backingInfo_any.borrow (backing_le hb))
      exact (hinfo.bind fun info ↦ (willneedChunk_leaves h.wf hb _ hless.le hbelow hcursor
        haligned).bind fun status ↦ .ite (fun _ ↦ .pure _) fun _ ↦ ih haligned) s x w hK hat h

theorem reclaimableBody_spec {includeFramePins : Bool} (hg : t.Has g) (hk : g k = some pte) :
    Triple μ {ref pte.frame} 0 (fun _ ↦ True) (reclaimableBody includeFramePins t (k * pageSize))
      (fun _ ↦ 0) fun r _ ↦ r.2 = t := by
  unfold reclaimableBody
  rw [hg.lookup_page, hk]
  intro s x w hK hat _
  exact getState_spec.seq (F := 0) hat rfl (hK.trans (le_add_left le_rfl)) trivial
    fun _ w1 hat1 _ _ ↦ ⟨hat1, rfl⟩

/-- Entries that fit the mappings of a space, in a table that may stand in for its own. -/
def Serves (μ : Mode) (i : SpaceId) (c : Space) (t : PageTable) (s : Sys) : Prop :=
  (∃ g, t.Has g ∧ c.Fits g) ∧ TableOk μ i ∅ t s

theorem walkServes_spec {body : PageTable → ℕ → Code (Status × PageTable)} (hle : start ≤ stop)
    (hlimit : stop ≤ userAddressLimit) (hstart : start % pageSize = 0) (hstop : stop % pageSize = 0)
    (hbody : ∀ k t g pte, t.Has g → c.Fits g → g k = some pte →
      Triple μ 0 ({lock (.space i)} + t.sites) (TableOk μ i ∅ t) (body t (k * pageSize))
        (fun r ↦ {lock (.space i)} + r.2.sites) fun r s ↦ Serves μ i c r.2 s) :
    Triple μ 0 ({lock (.space i)} + c.sites) (Sound μ i ∅ c)
      (do
        let (status, t) ← c.pageTable.walkRange start stop body
        Pure.pure (status, c.setTable t))
      (fun r ↦ {lock (.space i)} + r.2.sites) fun r s ↦ Sound μ i ∅ r.2 s := by
  obtain ⟨a, rfl⟩ : ∃ a, start = a * pageSize :=
    ⟨_, (Nat.div_mul_cancel (Nat.dvd_of_mod_eq_zero hstart)).symm⟩
  obtain ⟨b, rfl⟩ : ∃ b, stop = b * pageSize :=
    ⟨_, (Nat.div_mul_cancel (Nat.dvd_of_mod_eq_zero hstop)).symm⟩
  have hab : a ≤ b := Nat.le_of_mul_le_mul_right hle (by decide)
  intro s x w hK hat h
  have hwalk : Triple μ 0 ({lock (.space i)} + c.pageTable.sites) (Serves μ i c c.pageTable)
      (c.pageTable.walkRange (a * pageSize) (b * pageSize) body)
      (fun r ↦ {lock (.space i)} + r.2.sites)
      (Walked (fun _ t s ↦ Serves μ i c t s) (fun _ t s ↦ Serves μ i c t s) b) := by
    refine walkRange_spec (I := fun _ t s ↦ Serves μ i c t s) hab hlimit
      (fun _ _ _ ⟨⟨g, hg, _⟩, _⟩ ↦ hg.good) (fun _ _ _ _ _ _ h ↦ h) fun k t pte _ _ hpte ↦ ?_
    intro s x w hK hat ⟨⟨g, hg, hfits⟩, hok⟩
    rw [hg.pte] at hpte
    refine (hbody k t g pte hg hfits hpte).tail (F := 0) hat (add_zero _).symm zero_le hok
      fun r w1 hat1 _ h1 ↦ ⟨hat1.congr (add_zero _), ?_⟩
    by_cases hstatus : r.1 = .ok
    · exact .inl ⟨hstatus, h1⟩
    · exact .inr ⟨hstatus, h1⟩
  refine hwalk.seq (F := bindingSites c.bindings) hat (add_assoc _ _ _).symm zero_le
    ⟨⟨_, h.wf.has, h.wf.entry⟩, h.tableOk⟩ ?_
  rintro ⟨status, t⟩ w1 hat1 hk1 hwalked
  have hserves : Serves μ i c t w1.sys := by
    rcases hwalked with ⟨-, hs⟩ | ⟨-, hs⟩
    · exact hs
    · exact hs
  obtain ⟨⟨g, hg, hfits⟩, hok⟩ := hserves
  exact ⟨hat1.congr (add_assoc _ _ _), .setTable h.wf (h.bound.keeps hk1) hg hfits hok⟩

theorem Fits.remove (h : c.Fits g) (k : ℕ) : c.Fits (Function.update g k none) := by
  intro p pte hp
  by_cases hpk : p = k
  · subst hpk
    rw [Function.update_self] at hp
    cases hp
  · rw [Function.update_of_ne hpk] at hp
    exact h p pte hp

theorem dontneedBody_spec (hg : t.Has g) (hfits : c.Fits g) (hk : g k = some pte) :
    Triple μ 0 ({lock (.space i)} + t.sites) (TableOk μ i ∅ t) (dontneedBody i t (k * pageSize))
      (fun r ↦ {lock (.space i)} + r.2.sites) fun r s ↦ Serves μ i c r.2 s := by
  intro s x w hK hat hok
  unfold dontneedBody
  rw [hg.lookup_page, hk]
  dsimp only
  by_cases hlocked : pte.flags.locked = true
  · rw [if_pos hlocked]
    exact ⟨hat, ⟨g, hg, hfits⟩, hok⟩
  rw [if_neg hlocked]
  refine (Tlb.invalidatePage_spec _).seq hat rfl zero_le hok.1 fun _ w1 hat1 hk1 htlb1 ↦ ?_
  refine (unmap_at hg (hg.user hk)).seq (F := {lock (.space i)}) hat1 (add_comm _ _) zero_le
    (hok.2.keeps hk1 le_self_add) ?_
  rintro ⟨status, t'⟩ w2 hat2 hk2 ⟨hlocked2, hhas⟩
  refine ⟨hat2.congr (add_comm _ _), ⟨_, hhas, hfits.remove k⟩, ?_, hlocked2⟩
  refine (htlb1.keeps hk2 (by simp)).mono fun e he ↦ ?_
  have hne := he.2 (hg.user hk)
  rw [Nat.mul_div_cancel _ (by decide)] at hne
  rw [Agrees, hhas.pte, Function.update_of_ne hne, ← hg.pte]
  exact he.1

theorem Fits.flagged (h : c.Fits g) (hk : g k = some pte)
    (hset : set.cow = false ∧ set.shared = false)
    (hclear : clear.cow = false ∧ clear.shared = false ∧ clear.present = false) :
    c.Fits (Function.update g k (some (revised pte pte.frame pte.protection set clear))) := by
  obtain ⟨v, hv, hok⟩ := h k pte hk
  exact h.insert hv (PteOk.flagged hok _ hset hclear)

theorem frame_le (hg : t.Has g) (hk : g k = some pte) : {ref pte.frame} ≤ t.sites :=
  Multiset.singleton_le.2
    (Multiset.mem_of_le (Inv.pte_sites_le (by rw [hg.pte, hk])) (Inv.ref_mem_sites pte))

theorem markCold_spec {f : FrameId} :
    Spends μ {ref f} 0 (fun _ ↦ True) (Code.store (.markCold f)) :=
  frame_spec (o := .markCold f) fun _ hx g hg ↦ by cases hg; exact hx

theorem pageOut_spec {f : FrameId} :
    Spends μ {ref f} 0 (fun _ ↦ True) (Code.store (.pageOut f)) :=
  frame_spec (o := .pageOut f) fun _ hx g hg ↦ by cases hg; exact hx

theorem coldBody_spec (hg : t.Has g) (hfits : c.Fits g) (hk : g k = some pte) :
    Triple μ 0 ({lock (.space i)} + t.sites) (TableOk μ i ∅ t) (coldBody i t (k * pageSize))
      (fun r ↦ {lock (.space i)} + r.2.sites) fun r s ↦ Serves μ i c r.2 s := by
  intro s x w hK hat hok
  unfold coldBody
  rw [hg.lookup_page, hk]
  dsimp only
  refine revise_seq (F := 0) hg hk rfl rfl rfl nofun (fun _ ↦ rfl) hat (add_zero _).symm hok
    fun t' w1 hhas hat1 _ hok1 ↦ ?_
  have hself := hhas.pte k
  rw [Function.update_self] at hself
  refine markCold_spec.seq hat1 (zero_add _).symm ?_ trivial fun _ w2 hat2 hk2 _ ↦ ?_
  · have hle := frame_le (t := t') (g := t'.pte) ⟨hhas.good, fun _ ↦ rfl⟩ hself
    exact (hle.trans (le_add_left le_rfl)).trans (le_self_add.trans le_self_add)
  · refine ⟨hat2.congr (by simp), ⟨_, hhas, hfits.flagged hk ⟨rfl, rfl⟩ ⟨rfl, rfl, rfl⟩⟩,
      hok1.keeps hk2 (le_self_add.trans le_self_add)⟩

theorem pageoutBody_spec (hg : t.Has g) (hfits : c.Fits g) (hk : g k = some pte) :
    Triple μ 0 ({lock (.space i)} + t.sites) (TableOk μ i ∅ t) (pageoutBody i t (k * pageSize))
      (fun r ↦ {lock (.space i)} + r.2.sites) fun r s ↦ Serves μ i c r.2 s := by
  intro s x w hK hat hok
  unfold pageoutBody
  rw [hg.lookup_page, hk]
  dsimp only
  refine pageOut_spec.seq hat (zero_add _).symm
    (((frame_le hg hk).trans (le_add_left le_rfl)).trans le_self_add) trivial
    fun status w1 hat1 hk1 _ ↦ ?_
  rw [zero_add] at hat1
  have hok1 := hok.keeps hk1 le_self_add
  by_cases hstatus : status ≠ .ok
  · rw [if_pos hstatus]
    exact ⟨hat1, ⟨g, hg, hfits⟩, hok1⟩
  rw [if_neg hstatus]
  refine revise_seq (F := 0) hg hk rfl rfl rfl nofun (fun _ ↦ rfl) hat1 (add_zero _).symm hok1
    fun t' w2 hhas hat2 _ hok2 ↦ ?_
  exact ⟨hat2.congr (add_zero _), ⟨_, hhas, hfits.flagged hk ⟨rfl, rfl⟩ ⟨rfl, rfl, rfl⟩⟩, hok2⟩

theorem madviseLocked_spec {r : MemoryRange} (hlt : r.start < r.stop)
    (hlimit : r.stop ≤ userAddressLimit) (hstart : r.start % pageSize = 0)
    (hstop : r.stop % pageSize = 0) (advice : Advice) :
    Triple μ 0 ({lock (.space i)} + c.sites) (Sound μ i ∅ c) (madviseLocked i r advice c)
      (fun r ↦ {lock (.space i)} + r.2.sites) fun r s ↦ Sound μ i ∅ r.2 s := by
  have hreclaim : ∀ {includeFramePins body}, (∀ k t g pte, t.Has g → c.Fits g → g k = some pte →
      Triple μ 0 ({lock (.space i)} + t.sites) (TableOk μ i ∅ t) (body t (k * pageSize))
        (fun r ↦ {lock (.space i)} + r.2.sites) fun r s ↦ Serves μ i c r.2 s) →
      Triple μ 0 ({lock (.space i)} + c.sites) (Sound μ i ∅ c)
        (madviseLocked.reclaimable r c includeFramePins body)
        (fun r ↦ {lock (.space i)} + r.2.sites) fun r s ↦ Sound μ i ∅ r.2 s := by
    intro includeFramePins body hbody s x w hK hat h
    have hlook : Leaves μ i c (c.pageTable.walkRange r.start r.stop
        (reclaimableBody includeFramePins)) := leaves_of_borrow ((walkLook_spec h.wf.has hlt.le
      hlimit hstart hstop fun k pte hk ↦ reclaimableBody_spec h.wf.has hk).borrow c.table_le)
    refine hlook.first hat h ?_
    rintro ⟨status, t⟩ w1 hat1 - h1
    rw [add_zero] at hat1
    dsimp only
    split_ifs
    · exact ⟨hat1, h1⟩
    · exact walkServes_spec hlt.le hlimit hstart hstop hbody s x w1 hK hat1 h1
  cases advice with
  | willneed =>
    intro s x w hK hat h
    exact (willneedLocked_leaves hlimit hstop _ hstart).first hat h
      fun _ w1 hat1 _ h1 ↦ ⟨hat1.congr (add_zero _), h1⟩
  | cold =>
    exact walkServes_spec hlt.le hlimit hstart hstop fun k t g pte hg hfits hk ↦
      coldBody_spec hg hfits hk
  | dontneed => exact hreclaim fun k t g pte hg hfits hk ↦ dontneedBody_spec hg hfits hk
  | pageout => exact hreclaim fun k t g pte hg hfits hk ↦ pageoutBody_spec hg hfits hk
  | normal | random | sequential | invalid => exact .pure rfl fun _ h ↦ h

theorem madvise_spec (address length : ℕ) (advice : Advice) :
    Spends μ 0 0 (fun s ↦ i < s.nextSpace) (madvise i address length advice) := by
  refine .guard fun _ ↦ .ite (fun _ ↦ ?_) fun _ ↦ ?_
  · exact (memoryValidateEmptyRange_spec _ _).pre (fun _ _ ↦ trivial)
  split
  · exact .pure rfl fun _ _ ↦ trivial
  next r hr =>
  obtain ⟨-, hlt, hlimit, hstart, hstop⟩ := memoryPrepareRange_range hr
  exact withMappedRange_spec fun c _ ↦ madviseLocked_spec hlt hlimit hstart hstop advice

end Space

end MiniMM
