import MiniMM.Spec.Entries

/-!
# Specifications of spaces and their locks
-/

namespace MiniMM

open Handle

/-- A translation is the entry of its page. -/
def Agrees (t : PageTable) (e : TlbEntry) : Prop := t.pte e.virtualPage = some e.translation

namespace Space

variable {μ : Mode} {K H X x : Multiset Handle} {i : SpaceId} {bad : Set ℕ} {c : Space} {s s' : Sys}
  {α : Type}

/-- The part of the order of a space that is about its value alone. -/
structure Wf (c : Space) : Prop where
  snapshot : c.vmaSnapshot.Good
  table : ∃ m, c.pageTable.Represents m
  cookies : ∀ b ∈ c.bindings, b.cookie < c.nextMappingCookie
  nextCookie : c.nextMappingCookie ≠ 0
  base : c.mmapBase = new.mmapBase
  entry : ∀ p pte, c.pageTable.pte p = some pte →
    ∃ v, c.vmaSnapshot.lookup (p * pageSize) = some v ∧ PteOk v pte

/-- Every mapping is bound to a backing of its kind. -/
def Bound (c : Space) (s : Sys) : Prop :=
  ∀ v ∈ c.vmaSnapshot.ranges, v.mappingCookie ≠ 0 ∧
    ∃ b, Binding.find v.mappingCookie c.bindings = some b ∧ b.backing < s.nextBacking ∧
      (s.backingInfo b.backing).kind.shared = v.shared

/-- The order of a space for whoever holds its lock. The frames of locked entries in `bad` may not
be resident yet. -/
structure Sound (μ : Mode) (i : SpaceId) (bad : Set ℕ) (c : Space) (s : Sys) : Prop where
  wf : c.Wf
  bound : c.Bound s
  tlb : Tlb.All (Agrees c.pageTable) i s
  locked : c.pageTable.LockedResident μ s bad

/-- Code that works on a space under its lock leaves a sound one, and what else `R` says. -/
abbrev Works (μ : Mode) (K : Multiset Handle) (i : SpaceId) (c : Space) {α : Type}
    (p : Code (α × Space)) (R : α × Space → Sys → Prop) : Prop :=
  Triple μ K ({lock (.space i)} + c.sites) (Sound μ i ∅ c) p
    (fun r ↦ {lock (.space i)} + r.2.sites) fun r s ↦ Sound μ i ∅ r.2 s ∧ R r s

theorem Bound.keeps (h : c.Bound s) (hk : Keeps x s s') : c.Bound s' := by
  intro v hv
  obtain ⟨hne, b, hb, hlt, hkind⟩ := h v hv
  exact ⟨hne, b, hb, hlt.trans_le hk.nextBacking, by rw [hk.backingInfo _ hlt, hkind]⟩

theorem Sound.keeps (h : Sound μ i bad c s) (hk : Keeps x s s')
    (hx : {lock (.space i)} + c.pageTable.sites ≤ x) : Sound μ i bad c s' where
  wf := h.wf
  bound := h.bound.keeps hk
  tlb := h.tlb.keeps hk (Multiset.singleton_le.1 (le_self_add.trans hx))
  locked := h.locked.keeps hk ((le_add_left le_rfl).trans hx)

theorem Sound.spaceOk (h : Sound μ i ∅ c s) : SpaceOk μ s i c where
  snapshot := h.wf.snapshot
  table := h.wf.table
  bound v hv := by
    obtain ⟨hne, b, hb, -, hkind⟩ := h.bound v hv
    exact ⟨hne, b, hb, hkind⟩
  cookies := h.wf.cookies
  nextCookie := h.wf.nextCookie
  base := h.wf.base
  entry := h.wf.entry
  tlb := h.tlb
  locked hμ p pte hp hl := h.locked hμ p pte hp hl (Set.notMem_empty p)

theorem sound_of_spaceOk (h : SpaceOk μ s i c)
    (hlt : ∀ b ∈ c.bindings, b.backing < s.nextBacking) : Sound μ i ∅ c s where
  wf := ⟨h.snapshot, h.table, h.cookies, h.nextCookie, h.base, h.entry⟩
  bound v hv := by
    obtain ⟨hne, b, hb, hkind⟩ := h.bound v hv
    exact ⟨hne, b, hb, hlt b (Binding.mem_of_find hb).1, hkind⟩
  tlb := h.tlb
  locked hμ p pte hp hl _ := h.locked hμ p pte hp hl

theorem sites_eq (c : Space) : c.sites = c.pageTable.sites + bindingSites c.bindings := rfl

/-! ## Locks -/

theorem lock_spec :
    Triple μ 0 0 (fun s ↦ i < s.nextSpace) (.step (.lockSpace i))
      (fun c ↦ {lock (.space i)} + Space.sites c) fun c s ↦ Sound μ i ∅ c s := by
  intro s x w hK hat hi
  refine lockSpace_spec.tail (F := 0) hat rfl zero_le hi fun c w1 hat1 _ hok ↦ ?_
  refine ⟨hat1.congr (add_zero _), sound_of_spaceOk hok (hat1.inv.bound_lt ?_)⟩
  rw [hat1.mine, sites_eq]
  exact ((le_add_left (le_add_left le_rfl)).trans le_self_add).trans le_self_add

theorem unlock_spec :
    Triple μ 0 ({lock (.space i)} + c.sites) (Sound μ i ∅ c) (.step (.unlockSpace i c))
      (fun _ ↦ 0) fun _ s ↦ s.space i = c ∧ s.held (.space i) = false :=
  unlockSpace_spec.pre (fun _ h ↦ h.spaceOk)

/-- The frame of a call on a space: its body works on what the lock protects. -/
theorem withLock_spec {busy : α} {body : Space → Code (α × Space)} {G : α → Multiset Handle}
    {P : Sys → Prop} {Q : α → Sys → Prop} (hbusy : G busy = H)
    (hP : ∀ {x s s'}, H ≤ x → Keeps x s s' → P s → P s') (hQbusy : ∀ s, P s → Q busy s)
    (hQ : ∀ {r x s s'}, G r ≤ x → Keeps x s s' → Q r s → Q r s')
    (hbody : ∀ c, c.closing = false →
      Triple μ K ({lock (.space i)} + c.sites + H) (fun s ↦ Sound μ i ∅ c s ∧ P s) (body c)
        (fun r ↦ {lock (.space i)} + r.2.sites + G r.1)
        fun r s ↦ Sound μ i ∅ r.2 s ∧ Q r.1 s) :
    Triple μ K H (fun s ↦ i < s.nextSpace ∧ P s) (withLock i busy body) G Q := by
  intro s x w hK hat ⟨hi, hPw⟩
  refine lock_spec.aside hat hi fun c w1 hat1 hk1 hsound1 ↦ ?_
  have hP1 := hP le_self_add hk1 hPw
  by_cases hclosing : c.closing = true
  · rw [if_pos hclosing]
    refine unlock_spec.seq hat1 rfl zero_le hsound1 fun _ w2 hat2 hk2 _ ↦ ?_
    exact ⟨hat2.congr ((zero_add _).trans hbusy.symm), hQbusy _ (hP le_self_add hk2 hP1)⟩
  rw [if_neg hclosing]
  refine (hbody c (by simpa using hclosing)).seq (F := 0) hat1 (add_zero _).symm
    (by simpa using hK) ⟨hsound1, hP1⟩ ?_
  rintro ⟨r, c'⟩ w2 hat2 - ⟨hsound2, hQ2⟩
  refine unlock_spec.seq (F := G r) hat2 (add_zero _) zero_le hsound2 fun _ w3 hat3 hk3 _ ↦ ?_
  exact ⟨hat3.congr (zero_add _), hQ le_self_add hk3 hQ2⟩

/-- The same for calls that neither take nor return anything, and what such a call has made of the
space when it lets go of the lock. -/
theorem withLock_space {busy : α} {body : Space → Code (α × Space)} {R : Space → α × Space → Prop}
    (hbusy : ∀ c, c.closing = true → R c (busy, c))
    (hbody : ∀ c, c.closing = false →
      Works μ K i c (body c) fun r _ ↦ R c r) :
    Triple μ K 0 (fun s ↦ i < s.nextSpace) (withLock i busy body) (fun _ ↦ 0)
      fun r s ↦ s.held (.space i) = false ∧ ∃ c, R c (r, s.space i) := by
  intro s x w hK hat hi
  refine lock_spec.aside hat hi fun c w1 hat1 hk1 hsound1 ↦ ?_
  by_cases hclosing : c.closing = true
  · rw [if_pos hclosing]
    refine unlock_spec.seq hat1 rfl zero_le hsound1 fun _ w2 hat2 _ ⟨hspace, hfree⟩ ↦ ?_
    exact ⟨hat2, hfree, c, hspace ▸ hbusy c hclosing⟩
  rw [if_neg hclosing]
  refine (hbody c (by simpa using hclosing)).seq (F := 0) hat1 rfl (by simpa using hK) hsound1 ?_
  rintro ⟨r, c'⟩ w2 hat2 - ⟨hsound2, hR⟩
  refine unlock_spec.next hat2 hsound2 fun _ w3 hat3 _ ⟨hspace, hfree⟩ ↦ ?_
  exact ⟨hat3, hfree, c, hspace ▸ hR⟩

theorem withLock_plain {busy : α} {body : Space → Code (α × Space)}
    (hbody : ∀ c, c.closing = false →
      Triple μ K ({lock (.space i)} + c.sites) (Sound μ i ∅ c) (body c)
        (fun r ↦ {lock (.space i)} + r.2.sites) fun r s ↦ Sound μ i ∅ r.2 s) :
    Spends μ K 0 (fun s ↦ i < s.nextSpace) (withLock i busy body) :=
  (withLock_space (R := fun _ _ ↦ True) (fun _ _ ↦ trivial) fun c hc ↦ (hbody c hc).post
    fun _ _ h ↦ ⟨h, trivial⟩).post
    fun _ _ _ ↦ trivial

/-! ## Making and destroying spaces -/

theorem allocateAll_spec (n : ℕ) :
    Spends μ 0 0 (fun _ ↦ True) (allocateAll n) := by
  induction n with
  | zero => exact .pure rfl fun _ h ↦ h
  | succ n ih =>
    intro s x w hK hat _
    refine malloc_spec.next hat trivial fun allocated w1 hat1 _ _ ↦ ?_
    cases allocated with
    | true => exact ih s x w1 hK hat1 trivial
    | false => exact ⟨hat1, trivial⟩

theorem bound_of_empty (h : c.vmaSnapshot.ranges = []) : c.Bound s := by
  intro v hv
  rw [h] at hv
  cases hv

theorem wf_new : new.Wf where
  snapshot := VmaSnapshot.empty_good
  table := ⟨∅, PageTable.represents_empty⟩
  cookies b hb := nomatch hb
  nextCookie := by decide
  base := rfl
  entry p pte hp := by
    rw [show new.pageTable = PageTable.empty from rfl, PageTable.pte_empty] at hp
    cases hp

theorem lockedResident_empty : PageTable.empty.LockedResident μ s bad := by
  intro _ p pte hp
  rw [PageTable.pte_empty] at hp
  cases hp

theorem sound_of_empty (hwf : c.Wf) (ht : c.pageTable = .empty) (hv : c.vmaSnapshot = .empty)
    (htlb : Tlb.All (fun _ ↦ False) i s) : Sound μ i bad c s where
  wf := hwf
  bound := bound_of_empty (by rw [hv]; rfl)
  tlb := htlb.mono fun _ h ↦ h.elim
  locked := ht ▸ lockedResident_empty

theorem newSpace_spec (brk : Brk) :
    Triple μ 0 0 (fun s ↦ s.tlbEntries ≠ 0) (.step (.newSpace new brk))
      (fun i ↦ {lock (.space i)} + {lock (.brk i)}) fun i s ↦ Sound μ i ∅ new s := by
  refine .step (fun _ _ hk h ↦ by rwa [hk.tlbEntries]) (fun _ _ h ↦ ⟨le_rfl, h⟩)
    fun {w w' r} _ _ _ hn _ ↦ ⟨add_comm _ _, ?_⟩
  obtain ⟨woken, hexec⟩ := hn.exec
  obtain ⟨hr, hs⟩ := Prog.Outcome.ok.inj hexec
  rw [← hs, ← hr]
  refine sound_of_empty wf_new rfl rfl fun k e he ↦ ?_
  dsimp only at he
  rw [Function.update_self] at he
  cases he

/-- The locks of a space that may have been made. -/
def madeSites (made : Option SpaceId) : Multiset Handle :=
  made.elim 0 fun i ↦ {lock (.space i)} + {lock (.brk i)}

theorem createLocked_spec :
    Triple μ 0 0 (fun _ ↦ True) createLocked (fun r ↦ madeSites r.2)
      fun r s ↦ ∀ i, r.2 = some i → Sound μ i ∅ new s := by
  intro s x w hK hat _
  refine (allocateAll_spec 3).next hat trivial fun allocated w1 hat1 _ _ ↦ ?_
  split_ifs
  · exact ⟨hat1, nofun⟩
  refine tlbAvailable_spec.next hat1 trivial
    fun available w2 hat2 hk2 havailable ↦ ?_
  split_ifs with ha
  · exact ⟨hat2, nofun⟩
  refine (allocateAll_spec 4).next hat2 trivial
    fun allocated w3 hat3 hk3 _ ↦ ?_
  split_ifs
  · exact ⟨hat3, nofun⟩
  have hroom : w3.sys.tlbEntries ≠ 0 := by
    rw [hk3.tlbEntries]
    rw [havailable] at ha
    simpa using ha
  refine (newSpace_spec _).next hat3 hroom fun i w4 hat4 _ hsound ↦ ?_
  refine ⟨hat4.congr (add_zero _), fun j hj ↦ ?_⟩
  cases hj
  exact hsound

theorem create_spec :
    Spends μ 0 0 (fun _ ↦ True) create := by
  intro s x w hK hat _
  refine createLocked_spec.next hat trivial ?_
  rintro ⟨status, made⟩ w1 hat1 - h1
  cases made with
  | none => exact ⟨hat1, trivial⟩
  | some i =>
    refine unlock_spec.seq (F := {lock (.brk i)}) hat1 ?_ zero_le (h1 i rfl)
      fun _ w2 hat2 _ _ ↦ ?_
    · rw [sites_new, add_zero, add_zero]
      rfl
    refine (unlockBrk_spec _).seq (F := 0) hat2 (by simp) zero_le trivial
      fun _ w3 hat3 _ _ ↦ ?_
    exact ⟨hat3, trivial⟩

theorem Wf.closed (h : c.Wf) : c.closed.Wf := by
  refine ⟨VmaSnapshot.empty_good, ⟨∅, PageTable.represents_empty⟩, List.forall_mem_nil _,
    h.nextCookie, h.base, fun p pte hp ↦ ?_⟩
  rw [show c.closed.pageTable = PageTable.empty from rfl, PageTable.pte_empty] at hp
  cases hp

theorem destroyLocked_spec :
    Spends μ 0 ({lock (.space i)} + c.sites) (fun _ ↦ c.Wf) (destroyLocked i c) := by
  intro s x w hK hat hwf
  obtain ⟨m, hm⟩ := hwf.table
  refine Tlb.destroy_spec.seq (F := c.sites) hat rfl zero_le trivial fun _ w1 hat1 _ htlb1 ↦ ?_
  have hentries := hm.sites_entries
  rw [PageTable.destroy]
  generalize c.pageTable.entries = entries at hentries ⊢
  refine (PageTable.destroyEntries_spec entries).seq
    (F := {lock (.space i)} + bindingSites c.bindings) hat1 ?_ zero_le trivial
    fun _ w2 hat2 hk2 _ ↦ ?_
  · rw [sites_eq, hentries]
    ac_rfl
  refine (Binding.listDestroy_spec c.bindings).seq (F := {lock (.space i)}) hat2
    (by rw [zero_add, add_comm]) zero_le trivial fun _ w3 hat3 hk3 _ ↦ ?_
  have htlb3 := (htlb1.keeps hk2 (by simp)).keeps hk3 (by simp)
  refine unlock_spec.last hat3 ?_ (sound_of_empty hwf.closed rfl rfl htlb3)
  rw [sites_closed, zero_add, add_zero, add_zero]

theorem destroy_spec :
    Spends μ 0 0 (fun s ↦ i < s.nextSpace) (destroy i) := by
  intro s x w hK hat hi
  refine lock_spec.next hat hi fun c w1 hat1 _ hsound ↦ ?_
  exact destroyLocked_spec s x w1 hK (hat1.congr (add_zero _)) hsound.wf

theorem flushTlb_spec :
    Spends μ 0 0 (fun s ↦ i < s.nextSpace) (flushTlb i) := by
  refine withLock_plain fun c _ ↦ ?_
  intro s x w hK hat h
  refine Tlb.flush_spec.seq (F := c.sites) hat rfl zero_le h.tlb fun _ w1 hat1 hk1 htlb ↦ ?_
  refine ⟨hat1, h.wf, h.bound.keeps hk1, htlb.mono fun _ h ↦ h.elim, h.locked.keeps hk1 ?_⟩
  exact (show c.pageTable.sites ≤ c.sites from le_self_add).trans le_self_add

theorem publishLocked_spec (next : VmaSnapshot) :
    Triple μ 0 0 (fun _ ↦ True) (c.publishLocked next) (fun _ ↦ 0)
      fun c' _ ↦ c' = { c with vmaSnapshot := next } := by
  intro s x w hK hat _
  exact malloc_spec.next hat trivial fun _ w1 hat1 _ _ ↦ ⟨hat1, rfl⟩

end Space

end MiniMM
