import MiniMM.Threads

/-!
# Spaces among threads

What holds of a space whenever its lock is free, in every state that threads reach.
-/

namespace MiniMM

open Handle Vma

theorem Inv.anyone {μ μ' : Mode} {w : World} (h : Inv μ w) (hprompt : μ'.prompt = μ.prompt) :
    Inv μ' w where
  store := h.store
  tally := h.tally
  live := h.live
  lent := h.lent
  fresh := h.fresh
  tlbs := h.tlbs
  locks l hl hfree := by
    have hok := h.locks l hl hfree
    cases l with
    | space i => exact { hok with locked := fun hp ↦ hok.locked (hprompt ▸ hp) }
    | brk i => exact hok
    | backing b => exact hok
    | lineage l => exact hok

namespace SpaceOk

variable {μ : Mode} {s : Sys} {i : SpaceId} {c : Space}

theorem wf (h : SpaceOk μ s i c) : c.Wf :=
  ⟨h.snapshot, h.table, h.cookies, h.nextCookie, h.base, h.entry⟩

theorem pteAt (h : SpaceOk μ s i c) (address : ℕ) :
    c.pteAt address = c.pageTable.pte (address / pageSize) :=
  h.wf.has.lookup address

end SpaceOk

namespace Pool

variable {prompt : Bool} {p p' : Pool} {i : SpaceId}

theorem Ok.spaceOk {μ : Mode} {m : Multiset Handle} (h : p.Ok μ m) (hi : i < p.sys.nextSpace)
    (hfree : p.sys.held (.space i) = false) : SpaceOk μ p.sys i (p.sys.space i) := by
  obtain ⟨held, -, hinv, -⟩ := h
  exact hinv.locks (.space i) (Sys.space_mem_locks.2 hi) hfree

theorem Reachable.spaceOk (h : Reachable prompt p) (hi : i < p.sys.nextSpace)
    (hfree : p.sys.held (.space i) = false) :
    SpaceOk ⟨false, prompt⟩ p.sys i (p.sys.space i) :=
  h.ok.spaceOk hi hfree

theorem Reachable.inv (h : Reachable prompt p) (alone : Bool) :
    ∃ o, Inv ⟨alone, prompt⟩ ⟨p.sys, 0, o⟩ := by
  obtain ⟨held, -, hinv, -⟩ := h.ok
  exact ⟨_, hinv.anyone rfl⟩

/-! ## An example

A private page is written and locked, the space is forked, and then it is written again, which
copies the page. -/

def fresh : Pool := ⟨.created .reliable (fun _ ↦ ⟨fun _ ↦ 0, .ok⟩) 4 4, 0, 0⟩

theorem reachable_fresh : Reachable prompt fresh := .create ..

/-- The arguments of an anonymous private mapping of one page. -/
def onePage : MmapArgs where
  addressHint := 0
  length := pageSize
  noteOffset := 0
  protection := { read := true, write := true }
  maximumProtection := {}
  flags := { «private» := true, anonymous := true }
  note := none

def lockAndFork : List Task :=
  [.call .spaceCreate, .call (.mmap 0 onePage), .call (.mlock 0 0x100000 pageSize), .call (.fork 0)]

/-- The space with id 0, if no call is in progress on it. -/
def idle (p : Pool) : Bool := decide (0 < p.sys.nextSpace) && !p.sys.held (.space 0)

/-- The entry of the page, and whether its frame is resident. -/
def entryIs (test : Pte → Bool → Bool) (p : Pool) : Bool :=
  ((p.sys.space 0).pteAt 0x100000).any fun pte ↦ test pte (p.sys.store.resident pte.frame)

/-- The page is locked, and the TLB has a translation. -/
def lockedAndCached (p : Pool) : Bool :=
  p.idle && (p.entryIs fun pte _ ↦ pte.flags.locked) && ((p.sys.tlb 0).entries 0).isSome

set_option maxRecDepth 100000 in
theorem performAll_write : (performAll true 200
    (lockAndFork ++ [.call (.write 0 0x100000 [1] 5)]) fresh).any lockedAndCached = true := by
  decide +kernel

theorem idle_iff : p.idle = true ↔ 0 < p.sys.nextSpace ∧ p.sys.held (.space 0) = false := by
  rw [idle, Bool.and_eq_true, decide_eq_true_eq, Bool.not_eq_true']

theorem exists_write : ∃ p, Reachable true p ∧
    (0 < p.sys.nextSpace ∧ p.sys.held (.space 0) = false) ∧
    (∃ pte, (p.sys.space 0).pteAt 0x100000 = some pte ∧ pte.flags.locked = true) ∧
    ∃ e, (p.sys.tlb 0).entries 0 = some e := by
  obtain ⟨p, hp, h⟩ := (Option.any_eq_true _ _).1 performAll_write
  rw [lockedAndCached, Bool.and_eq_true, Bool.and_eq_true] at h
  exact ⟨p, reachable_fresh.performAll hp, idle_iff.1 h.1.1, (Option.any_eq_true _ _).1 h.1.2,
    Option.isSome_iff_exists.1 h.2⟩

/-! ## Translations -/

/-- A translation in the TLB of a space is the entry of its page. -/
theorem tlb_eq_pte (h : Reachable false p) (hi : i < p.sys.nextSpace)
    (hfree : p.sys.held (.space i) = false) {k : ℕ} {e : TlbEntry}
    (he : (p.sys.tlb i).entries k = some e) :
    (p.sys.space i).pteAt (e.virtualPage * pageSize) = some e.translation := by
  have hok := h.spaceOk hi hfree
  rw [hok.pteAt, Nat.mul_div_cancel _ (by decide)]
  exact hok.tlb k e he

theorem tlb_eq_pte_write : ∃ p e, Reachable false p ∧ (p.sys.tlb 0).entries 0 = some e ∧
    (p.sys.space 0).pteAt (e.virtualPage * pageSize) = some e.translation := by
  obtain ⟨p, hreach, ⟨hi, hfree⟩, -, e, he⟩ := exists_write
  exact ⟨p, e, hreach.always, he, tlb_eq_pte hreach.always hi hfree he⟩

/-! ## Locked pages -/

/-- If the pins that follow a copy on write find their frame resident, locked pages are resident,
and so are the pages of a range that `minimm_mlock` has locked. -/
theorem locked_resident (h : Reachable true p) (hi : i < p.sys.nextSpace) :
    (p.sys.held (.space i) = false → ∀ address pte, (p.sys.space i).pteAt address = some pte →
      pte.flags.locked = true → p.sys.store.resident pte.frame = true) ∧
    ∀ address length p', Runs true (Space.mlock i address length) p .ok p' →
      ∀ a, address ≤ a → a < address + length → ∃ pte, (p'.sys.space i).pteAt a = some pte ∧
        pte.flags.locked = true ∧ p'.sys.store.resident pte.frame = true := by
  have hidle : ∀ {q : Pool} {m : Multiset Handle}, q.Ok ⟨false, true⟩ m → i < q.sys.nextSpace →
      q.sys.held (.space i) = false → ∀ address pte, (q.sys.space i).pteAt address = some pte →
      pte.flags.locked = true → q.sys.store.resident pte.frame = true := by
    intro q m hq hi hfree address pte hpte hlocked
    have hok := hq.spaceOk hi hfree
    rw [hok.pteAt] at hpte
    exact hok.locked rfl _ _ hpte hlocked
  refine ⟨hidle h.ok hi, fun address length p' hrun a ha hlt ↦ ?_⟩
  obtain ⟨o, -, hinv, -⟩ := h.ok
  obtain ⟨m', o', hok', hat, hlocked⟩ := Runs.post (μ := ⟨false, true⟩) hrun rfl h.ok
    (Space.mlock_locks address length p.sys 0 ⟨p.sys, 0, _⟩ zero_le (.refl hinv rfl) hi)
  obtain ⟨hfree, hlocked⟩ := hlocked rfl (by omega)
  obtain ⟨pte, hpte, hflag⟩ := hlocked rfl a ha hlt
  exact ⟨pte, hpte, hflag, hidle hok' (hi.trans_le hat.keeps.nextSpace) hfree a pte hpte hflag⟩

/-- `minimm_mlock` locks the page. -/
def locksPage (p : Pool) : Bool :=
  decide (0 < p.sys.nextSpace) &&
    match advance true 200 (Space.mlock 0 0x100000 pageSize) p.sys with
    | some (.pure status, _) => decide (status = .ok)
    | _ => false

set_option maxRecDepth 100000 in
theorem performAll_mlock :
    (performAll true 200 (lockAndFork.take 2) fresh).any locksPage = true := by
  decide +kernel

theorem exists_mlock : ∃ p p', Reachable true p ∧ 0 < p.sys.nextSpace ∧
    Runs true (Space.mlock 0 0x100000 pageSize) p .ok p' := by
  obtain ⟨p, hp, h⟩ := (Option.any_eq_true _ _).1 performAll_mlock
  rw [locksPage, Bool.and_eq_true, decide_eq_true_eq] at h
  obtain ⟨hi, h⟩ := h
  split at h
  · next status s' hrun =>
    cases of_decide_eq_true h
    exact ⟨p, _, reachable_fresh.performAll hp, hi, .of_advance hrun⟩
  · cases h

/-- The page after the write, which has copied it, and after a `minimm_mlock`. -/
theorem locked_resident_write :
    (∃ p pte, Reachable true p ∧ (p.sys.space 0).pteAt 0x100000 = some pte ∧
      pte.flags.locked = true ∧ p.sys.store.resident pte.frame = true) ∧
    ∃ p p' pte, Runs true (Space.mlock 0 0x100000 pageSize) p .ok p' ∧
      (p'.sys.space 0).pteAt 0x100fff = some pte ∧ pte.flags.locked = true ∧
      p'.sys.store.resident pte.frame = true := by
  constructor
  · obtain ⟨p, hreach, ⟨hi, hfree⟩, ⟨pte, hpte, hlocked⟩, -⟩ := exists_write
    exact ⟨p, pte, hreach, hpte, hlocked,
      (locked_resident hreach hi).1 hfree 0x100000 pte hpte hlocked⟩
  · obtain ⟨p, p', hreach, hi, hrun⟩ := exists_mlock
    obtain ⟨pte, hpte⟩ := (locked_resident hreach hi).2 _ _ p' hrun 0x100fff (by decide) (by decide)
    exact ⟨p, p', pte, hrun, hpte⟩

/-- The page is locked, but it is not resident. -/
def lockedOut (p : Pool) : Bool :=
  p.idle && p.entryIs fun pte resident ↦ pte.flags.locked && !resident

set_option maxRecDepth 100000 in
theorem interrupt_lockedOut : ((performAll false 200 lockAndFork fresh).bind (interrupt false 200 5
    (.call (.handlePageFault 0 0x100000 .write)) [.systemReclaim 1])).any lockedOut = true := by
  decide +kernel

/-- A locked page is not resident although no call is in progress. -/
theorem exists_locked_not_resident : ∃ p pte, Reachable false p ∧ p.threads = 0 ∧
    (0 < p.sys.nextSpace ∧ p.sys.held (.space 0) = false) ∧
    (p.sys.space 0).pteAt 0x100000 = some pte ∧ pte.flags.locked = true ∧
    p.sys.store.resident pte.frame = false := by
  obtain ⟨p, hp, h⟩ := (Option.any_eq_true _ _).1 interrupt_lockedOut
  obtain ⟨q, hq, hinterrupt⟩ := Option.bind_eq_some_iff.1 hp
  rw [lockedOut, Bool.and_eq_true] at h
  obtain ⟨pte, hpte, htest⟩ := (Option.any_eq_true _ _).1 h.2
  rw [Bool.and_eq_true, Bool.not_eq_true'] at htest
  refine ⟨p, pte, (reachable_fresh.performAll hq).interrupt hinterrupt, ?_, idle_iff.1 h.1, hpte,
    htest⟩
  rw [interrupt_threads hinterrupt, performAll_threads hq]
  rfl

/-! ## Entries and mappings -/

/-- Page faults on one page, as long as they are resolved. -/
def faultAgain (i : SpaceId) (address : ℕ) (access : Access) : ℕ → Space → Code Space
  | 0, c => pure c
  | faults + 1, c => do
    let ((status, _), c) ← Space.handlePageFaultLocked i c address access .access
    if status ≠ .ok then pure c else faultAgain i address access faults c

/-- The space as an access finds it after some rounds of its loop and some page faults on the page
it has come to: all the points at which the access calls the fault handler. -/
def accessPoint (i : SpaceId) (address : ℕ) (access : Access) (x : Space.Transfer)
    (spin rounds faults : ℕ) : Code Space := do
  let c ← .step (.lockSpace i)
  let ((_, completed, _), c) ← Space.accessLoop i address access x spin rounds c 0 []
  faultAgain i (address + completed) access faults c

/-- The address that an access has come to after some rounds, with its translation. -/
def accessTranslation (i : SpaceId) (address : ℕ) (access : Access) (x : Space.Transfer)
    (spin rounds : ℕ) : Code (ℕ × Space × Option Pte) := do
  let c ← .step (.lockSpace i)
  let ((_, completed, _), c) ← Space.accessLoop i address access x spin rounds c 0 []
  if completed < x.length then do
    let (_, c, pte) ← Space.translateLocked i c (address + completed) access x.isWrite spin
    pure (address + completed, c, pte)
  else pure (address + completed, c, none)

section Access

variable {μ : Mode} {address : ℕ} {access : Access} {x : Space.Transfer}

theorem faultAgain_spec (faults : ℕ) {c : Space} :
    Triple μ 0 ({lock (.space i)} + c.sites) (Space.Sound μ i ∅ c)
      (faultAgain i address access faults c) (fun c ↦ {lock (.space i)} + c.sites)
      fun c s ↦ Space.Sound μ i ∅ c s := by
  induction faults generalizing c with
  | zero => exact .pure rfl fun _ h ↦ h
  | succ faults ih =>
    intro s y w hK hat h
    refine (Space.handlePageFaultLocked_spec _ _).first hat h ?_
    rintro ⟨⟨status, fault⟩, c1⟩ w1 hat1 - ⟨h1, -⟩
    rw [add_zero] at hat1
    dsimp only
    split_ifs
    · exact ⟨hat1, h1⟩
    · exact ih s y w1 hK hat1 h1

theorem rounds_spec (hvalid : Space.accessValidate address x.length = .ok)
    (hwrite : (Space.accessFlags access).dirty = x.isWrite) (spin rounds : ℕ) {c : Space} :
    Triple μ 0 ({lock (.space i)} + c.sites) (Space.Sound μ i ∅ c)
      (Space.accessLoop i address access x spin rounds c 0 [])
      (fun r ↦ {lock (.space i)} + r.2.sites) fun r s ↦ Space.Sound μ i ∅ r.2 s :=
  (Space.accessLoop_spec (Space.length_le_of_validate hvalid) hwrite spin rounds [] .zero
    (.inl rfl)).post fun _ _ h ↦ h.1

theorem accessPoint_spec (hvalid : Space.accessValidate address x.length = .ok)
    (hwrite : (Space.accessFlags access).dirty = x.isWrite) (spin rounds faults : ℕ) :
    Triple μ 0 0 (fun s ↦ i < s.nextSpace) (accessPoint i address access x spin rounds faults)
      (fun c ↦ {lock (.space i)} + c.sites) fun c _ ↦ c.EntriesAllow := by
  intro s y w hK hat hi
  refine Space.lock_spec.next hat hi fun c w1 hat1 _ h1 ↦ ?_
  refine (rounds_spec hvalid hwrite spin rounds).next hat1 h1 ?_
  rintro ⟨⟨status, completed, bytes⟩, c2⟩ w2 hat2 - h2
  refine (faultAgain_spec faults).tail (F := 0) hat2 rfl zero_le h2 fun c3 w3 hat3 _ h3 ↦ ?_
  exact ⟨hat3.congr (add_zero _), h3.wf.entriesAllow⟩

theorem accessTranslation_spec (hvalid : Space.accessValidate address x.length = .ok)
    (hwrite : (Space.accessFlags access).dirty = x.isWrite) (spin rounds : ℕ) :
    Triple μ 0 0 (fun s ↦ i < s.nextSpace) (accessTranslation i address access x spin rounds)
      (fun r ↦ {lock (.space i)} + r.2.1.sites + Space.heldSites r.2.2)
      fun r _ ↦ ∀ v pte, r.2.1.vmaSnapshot.lookup r.1 = some v →
        faultAccessIsAllowed v.prot access = true → r.2.2 = some pte →
        faultAccessIsAllowed pte.protection access = true := by
  intro s y w hK hat hi
  refine Space.lock_spec.next hat hi fun c w1 hat1 _ h1 ↦ ?_
  refine (rounds_spec hvalid hwrite spin rounds).next hat1 h1 ?_
  rintro ⟨⟨status, completed, bytes⟩, c2⟩ w2 hat2 - h2
  dsimp only at hat2 h2 ⊢
  rw [add_zero] at hat2
  split_ifs with hmore
  · have ha : address + completed < userAddressLimit := by
      have := Space.length_le_of_validate hvalid
      omega
    refine (Space.translateLocked_spec ha hwrite spin).first hat2 h2 ?_
    rintro ⟨status, c3, found⟩ w3 hat3 - ⟨h3, htranslated⟩
    refine ⟨hat3.congr (add_zero _), fun v pte hv hallowed hpte ↦ ?_⟩
    obtain ⟨hentry, hmarked⟩ := htranslated.found pte hpte
    refine h3.wf.entriesAllow _ access v pte hv hallowed ?_ fun hcow ↦ ?_
    · rw [h3.wf.pteAt_pageOf]
      exact hentry
    · rw [(hmarked.written hcow.2).2] at hcow
      cases hcow.1
  · exact ⟨hat2.congr (by simp [Space.heldSites]), fun v pte _ _ h ↦ by cases h⟩

end Access

/-- Every entry lies in one mapping and agrees with it. What the mapping allows the entry allows,
whenever the fault handler looks at it, and so does the translation that an access uses. -/
theorem pte_of_vma (h : Reachable false p) (hi : i < p.sys.nextSpace) :
    (p.sys.held (.space i) = false → ∀ address pte, (p.sys.space i).pteAt address = some pte →
      ∃ v ∈ (p.sys.space i).vmaSnapshot.ranges, (v.start ≤ address ∧ address < v.stop) ∧
        (∀ u ∈ (p.sys.space i).vmaSnapshot.ranges, u.start ≤ address → address < u.stop → u = v) ∧
        pte.protection = (if pte.flags.cow then v.prot.readOnly else v.prot) ∧
        pte.flags.shared = v.shared ∧
        (pte.flags.cow = true → v.shared = false ∧ v.maxProt.writable = true)) ∧
    (p.sys.held (.space i) = false → (p.sys.space i).EntriesAllow) ∧
    ∀ address access x spin rounds, Space.accessValidate address x.length = .ok →
      (Space.accessFlags access).dirty = x.isWrite →
      (∀ faults c p', Runs false (accessPoint i address access x spin rounds faults) p c p' →
        c.EntriesAllow) ∧
      ∀ current c pte p',
        Runs false (accessTranslation i address access x spin rounds) p (current, c, some pte) p' →
        ∀ v, c.vmaSnapshot.lookup current = some v → faultAccessIsAllowed v.prot access = true →
          faultAccessIsAllowed pte.protection access = true := by
  obtain ⟨o, -, hinv, -⟩ := h.ok
  refine ⟨fun hfree address pte hpte ↦ ?_, fun hfree ↦ (h.spaceOk hi hfree).wf.entriesAllow,
    fun address access x spin rounds hvalid hwrite ↦ ⟨fun faults c p' hrun ↦ ?_,
      fun current c pte p' hrun v hv hallowed ↦ ?_⟩⟩
  · have hok := h.spaceOk hi hfree
    rw [hok.pteAt] at hpte
    obtain ⟨v, hv, hentry⟩ := hok.entry _ _ hpte
    rw [VmaSnapshot.lookup_page hok.snapshot] at hv
    obtain ⟨hmem, hle, hlt⟩ := (VmaSnapshot.lookup_eq_some hok.snapshot).1 hv
    refine ⟨v, hmem, ⟨hle, hlt⟩, fun u hu hule hult ↦ ?_, hentry.protection, hentry.shared,
      hentry.cow⟩
    have hu' := (VmaSnapshot.lookup_eq_some hok.snapshot).2 ⟨hu, hule, hult⟩
    exact Option.some_inj.1 (hu'.symm.trans hv)
  · obtain ⟨_, _, -, -, hallow⟩ := Runs.post (μ := ⟨false, false⟩) hrun rfl h.ok
      (accessPoint_spec hvalid hwrite spin rounds faults p.sys 0 ⟨p.sys, 0, _⟩ zero_le
        (.refl hinv rfl) hi)
    exact hallow
  · obtain ⟨_, _, -, -, hallow⟩ := Runs.post (μ := ⟨false, false⟩) hrun rfl h.ok
      (accessTranslation_spec hvalid hwrite spin rounds p.sys 0 ⟨p.sys, 0, _⟩ zero_le
        (.refl hinv rfl) hi)
    exact hallow v pte hv hallowed rfl

theorem pte_of_vma_write : ∃ p pte, Reachable false p ∧
    (p.sys.space 0).pteAt 0x100000 = some pte ∧ ∃ v ∈ (p.sys.space 0).vmaSnapshot.ranges,
      v.start ≤ 0x100000 ∧ 0x100000 < v.stop ∧ pte.flags.shared = v.shared := by
  obtain ⟨p, hreach, ⟨hi, hfree⟩, ⟨pte, hpte, -⟩, -⟩ := exists_write
  obtain ⟨v, hv, ⟨hle, hlt⟩, -, -, hshared, -⟩ := (pte_of_vma hreach.always hi).1 hfree _ pte hpte
  exact ⟨p, pte, hreach.always, hpte, v, hv, hle, hlt, hshared⟩

end Pool

end MiniMM
