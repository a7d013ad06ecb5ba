import MiniMM.Logic.Count
import MiniMM.PageTable.Counts
import MiniMM.Threads.Reach

/-!
# Lifetimes among threads

What a thread works on is there, and what it gives up it has. When no call is in progress, every
counter is the number of references in the memory of the system and with the clients.
-/

namespace MiniMM

open Handle

/-! ## What a step works on -/

/-- The aborts of a counter that stands at `SIZE_MAX`. -/
def Abort.overflow : Abort → Bool
  | .waiterCount | .mapCount | .pinCount | .transientPinCount | .retainCount => true
  | _ => false

namespace Sys

def Op.frame? {β : Type} : Op β → Option FrameId
  | .request f _ _ | .retain f | .drop _ f => some f
  | .store o => o.frame?
  | _ => none

/-- The end of a frame. -/
def Op.isRelease {β : Type} : Op β → Bool
  | .store (.release _) => true
  | _ => false

def Op.backing? {β : Type} : Op β → Option BackingId
  | .backingInfo b | .retainBacking b | .dropBacking b | .lockBacking b | .unlockBacking b _ =>
    some b
  | _ => none

/-- The lock that a step gives back. -/
def Op.unlock? {β : Type} : Op β → Option LockId
  | .unlockSpace i _ => some (.space i)
  | .unlockBrk i _ => some (.brk i)
  | .unlockBacking b _ => some (.backing b)
  | .unlockLineage l _ => some (.lineage l)
  | _ => none

/-- What a step works on is there, and what it gives up has been taken. -/
structure StepSafe (s : Sys) {β : Type} (o : Op β) : Prop where
  frame : ∀ f ∈ o.frame?, f ∈ s.store.frames
  ref : ∀ f ∈ o.frame?, o.isRelease = false → 0 < s.refs f
  backing : ∀ b ∈ o.backing?, s.backingRefs b ≠ 0
  unlock : ∀ l ∈ o.unlock?, s.held l = true
  counted : s.Counted o
  abort : ∀ e, s.exec o = .abort e → e.overflow = true ∨ e = .noteHasChildren

end Sys

namespace Inv

variable {μ : Mode} {w : World} {β : Type} {o : Sys.Op β} {e : Abort}

theorem take_mem (hlegal : (rules μ).legal o w) {x : Handle} (hx : x ∈ w.sys.take o) : x ∈ w.mine :=
  Multiset.mem_of_le (le_self_add.trans hlegal.1) hx

theorem frame_live (h : Inv μ w) (hlegal : (rules μ).legal o w) {f : FrameId}
    (hf : f ∈ o.frame?) :
    f ∈ w.sys.store.frames ∧ (o.isRelease = false → 0 < w.sys.refs f) := by
  have hreach : w.Reaches f →
      f ∈ w.sys.store.frames ∧ (o.isRelease = false → 0 < w.sys.refs f) :=
    fun hr ↦ ⟨h.reaches_live hr, fun _ ↦ h.reaches_pos hr⟩
  cases o with
  | request g r woken =>
    cases hf
    exact hreach hlegal.2
  | retain g =>
    cases hf
    exact hreach hlegal.2
  | drop site g =>
    cases hf
    exact hreach (.inl (take_mem hlegal (Multiset.mem_singleton_self _)))
  | store q =>
    cases q with
    | release g =>
      cases hf
      refine ⟨(h.last_live (take_mem hlegal (Multiset.mem_singleton_self _))).2, fun hne ↦ ?_⟩
      cases hne
    | create | request => exact hlegal.2.elim
    | _ => exact hreach (hlegal.2 f hf)
  | _ => cases hf

theorem backing_live (h : Inv μ w) (hlegal : (rules μ).legal o w) {b : BackingId}
    (hb : b ∈ o.backing?) : w.sys.backingRefs b ≠ 0 := by
  cases o with
  | backingInfo c | retainBacking c =>
    cases hb
    exact (h.backing_pos hlegal.2).1
  | dropBacking c | lockBacking c =>
    cases hb
    exact (h.backing_pos (take_mem hlegal (Multiset.mem_singleton_self _))).1
  | unlockBacking c pages =>
    cases hb
    exact h.lent b (h.held_of_mem (take_mem hlegal (by simp [Sys.take])))
  | _ => cases hb

theorem unlock_held (h : Inv μ w) (hlegal : (rules μ).legal o w) {l : LockId}
    (hl : l ∈ o.unlock?) : w.sys.held l = true := by
  cases o with
  | unlockSpace | unlockBrk | unlockBacking | unlockLineage =>
    cases hl
    exact h.held_of_mem (take_mem hlegal (by simp [Sys.take]))
  | _ => cases hl

theorem store_abort (h : Inv μ w) {q : FrameStore.Op β} (hlive : q.Live w.sys.store)
    (hcounted : w.sys.Counted (.store q)) (herr : w.sys.store.exec q = .error e) :
    e.overflow = true := by
  cases q with
  | request f r woken =>
    rcases FrameStore.request_spec h.store (hlive f rfl) r woken with ⟨_, _, heq, -⟩ | heq
    · cases heq.symm.trans herr
    · cases heq.symm.trans herr
      rfl
  | pageOut f =>
    obtain ⟨_, _, heq, -⟩ := FrameStore.pageOutLocked_spec h.store (hlive f rfl)
    cases heq.symm.trans herr
  | reclaim target =>
    obtain ⟨_, _, heq, -⟩ := FrameStore.reclaim_spec h.store target
    cases heq.symm.trans herr
  | release f =>
    obtain ⟨_, heq, -⟩ := FrameStore.releaseLocked_spec h.store (hlive f rfl)
    rw [FrameStore.exec, heq] at herr
    cases herr
  | map f | pin site f =>
    simp only [FrameStore.exec, FrameStore.map, FrameStore.pin] at herr
    split_ifs at herr
    · cases herr
      rfl
    · cases herr
  | unmap f | unpinResident f =>
    simp only [FrameStore.exec, FrameStore.unmap, FrameStore.unpinResident] at herr
    rw [if_neg hcounted] at herr
    cases herr
  | tryPinResident f =>
    simp only [FrameStore.exec, FrameStore.tryPinResident] at herr
    split_ifs at herr
    cases herr
    rfl
  | _ => cases herr

theorem abort_overflow (h : Inv μ w) (hlegal : (rules μ).legal o w)
    (hexec : w.sys.exec o = .abort e) : e.overflow = true ∨ e = .noteHasChildren := by
  have hlive : ∀ f ∈ o.frame?, f ∈ w.sys.store.frames := fun f hf ↦ (h.frame_live hlegal hf).1
  cases o with
  | abort =>
    cases hexec
    exact .inr hlegal.2
  | store q =>
    refine .inl (h.store_abort hlive (h.counted hlegal) (e := e) ?_)
    simp only [Sys.exec] at hexec
    split at hexec
    · cases hexec
      assumption
    · cases hexec
  | request f r woken =>
    refine .inl (h.store_abort (q := .request f r woken) hlive trivial (e := e) ?_)
    simp only [Sys.exec] at hexec
    split at hexec <;> cases hexec
    assumption
  | create =>
    simp only [Sys.exec, FrameStore.exec] at hexec
    cases hexec
  | newNote | lockSpace | lockBrk | lockBacking | lockLineage =>
    simp only [Sys.exec, Sys.lock] at hexec
    split at hexec <;> cases hexec
  | retain | retainBacking | retainNote =>
    simp only [Sys.exec, Sys.countUp] at hexec
    split at hexec <;> cases hexec
    exact .inl rfl
  | _ => cases hexec

theorem stepSafe (h : Inv μ w) (hlegal : (rules μ).legal o w) : w.sys.StepSafe o where
  frame _ hf := (h.frame_live hlegal hf).1
  ref _ hf := (h.frame_live hlegal hf).2
  backing _ hb := h.backing_live hlegal hb
  unlock _ hl := h.unlock_held hlegal hl
  counted := h.counted hlegal
  abort _ hexec := h.abort_overflow hlegal hexec

end Inv

namespace Pool

variable {p : Pool}

/-- No thread is about to use a frame or a backing that is gone, to give up a count or a lock that
it does not have, or to abort at anything but a counter that cannot grow. Only a client that copies
a note after it has released it makes `minimm_note_release` find children. -/
theorem stepSafe_of_mem (h : Reachable false p) {β : Type} {o : Sys.Op β}
    {k : β → Code (Option NoteId)} (hmem : .op o k ∈ p.threads) : p.sys.StepSafe o := by
  obtain ⟨s, owned, threads⟩ := p
  obtain ⟨threads, rfl⟩ := Multiset.exists_cons_of_mem hmem
  obtain ⟨m, held, -, hsafe, hview⟩ := h.ok.view
  obtain ⟨hlegal, -⟩ := hsafe ⟨s, m, _⟩ (rely_of_keeps rfl .refl) hview.inv
  exact hview.inv.stepSafe hlegal

/-- The frame that the next step of a thread works on. -/
def nextFrame : Code (Option NoteId) → Option FrameId
  | .pure _ => none
  | .op o _ => o.frame?

/-- The frame of the next step of a fault, after a number of steps. -/
def faultFrame (steps : ℕ) (p : Pool) : Option FrameId :=
  (advance false steps (Task.code (.call (.handlePageFault 0 0x100000 .write))) p.sys).bind
    fun r ↦ nextFrame r.1

set_option maxRecDepth 100000 in
theorem performAll_faultFrame : ((performAll false 200 lockAndFork fresh).bind
    fun p ↦ if 0 < p.sys.nextSpace then p.faultFrame 5 else none).isSome = true := by
  decide +kernel

theorem stepSafe_faultFrame : ∃ (p : Pool) (β : Type) (o : Sys.Op β) (f : FrameId),
    Reachable false p ∧ f ∈ o.frame? ∧ p.sys.StepSafe o := by
  obtain ⟨f, hf⟩ := Option.isSome_iff_exists.1 performAll_faultFrame
  obtain ⟨p, hp, hf⟩ := Option.bind_eq_some_iff.1 hf
  split_ifs at hf with hspace
  obtain ⟨⟨rest, s⟩, hrest, hf⟩ := Option.bind_eq_some_iff.1 hf
  have hlegal : (Task.call (.handlePageFault 0 0x100000 .write)).Legal p.sys := by
    refine ⟨?_, ?_⟩
    · rintro _ ⟨⟩
      exact hspace
    · rintro _ ⟨⟩
  have hreach := ((reachable_fresh.performAll hp).step
    (.start hlegal (Multiset.zero_le _))).advance hrest
  cases rest with
  | pure n => cases hf
  | op o k => exact ⟨_, _, o, f, hreach, hf, stepSafe_of_mem hreach (Multiset.mem_cons_self _ _)⟩

end Pool

/-! ## Counting references -/

/-- The pages of a list that a frame holds. -/
def CachedPages.uses (pages : CachedPages) (f : FrameId) : ℕ := pages.countP fun q ↦ q.2 = f

/-- The translations to a frame. -/
def Tlb.uses (t : Tlb) (f : FrameId) : ℕ :=
  ∑ k ∈ Finset.range t.capacity, if (t.entries k).any fun e ↦ e.translation.frame = f then 1 else 0

def Lineage.uses (v : Lineage) (f : FrameId) : ℕ :=
  (v.members.map fun n ↦ CachedPages.uses (v.pages n) f).sum

/-- The notes that inherit from a note. -/
def Lineage.heirs (v : Lineage) (n : NoteId) : ℕ :=
  v.members.countP fun k ↦ (v.body k).cowParent = some n

def bindingUses (bindings : List Binding) (b : BackingId) : ℕ :=
  bindings.countP fun x ↦ x.backing = b

namespace Sys

/-- The entries and translations of all spaces, and the pages of all backings and notes. -/
def frameUses (s : Sys) (f : FrameId) : ℕ :=
  ∑ i ∈ Finset.range s.nextSpace, ((s.space i).pageTable.installed f + (s.tlb i).uses f) +
    ∑ b ∈ Finset.range s.nextBacking,
      (if s.backingRefs b = 0 then 0 else CachedPages.uses (s.backingPages b) f) +
    ∑ l ∈ Finset.range s.nextLineage, (s.lineage l).uses f

/-- The backings of a note that are in use. -/
def noteBackings (s : Sys) (n : NoteId) : ℕ :=
  ∑ b ∈ Finset.range s.nextBacking,
    if s.backingRefs b ≠ 0 ∧ (s.backingInfo b).note = some n then 1 else 0

/-- Every counter is the number of references there are. -/
structure Balanced (s : Sys) (owned : Multiset NoteId) : Prop where
  free : ∀ l, s.held l = false
  refs : ∀ f, s.refs f = s.frameUses f
  mappings : ∀ f, (s.store.frame f).mappings =
    ∑ i ∈ Finset.range s.nextSpace, (s.space i).pageTable.installed f
  pins : ∀ f, (s.store.frame f).pinCount =
    ∑ i ∈ Finset.range s.nextSpace, (s.space i).pageTable.installedLocked f
  transient : ∀ f, (s.store.frame f).transientPinCount = 0
  frames : ∀ f, f ∈ s.store.frames ↔ 0 < s.refs f
  backings : ∀ b, s.backingRefs b =
    ∑ i ∈ Finset.range s.nextSpace, bindingUses (s.space i).bindings b
  active : ∀ n, s.activeMappings n = s.noteBackings n
  notes : ∀ n, s.noteRefs n = owned.count n + s.noteBackings n +
    ∑ l ∈ Finset.range s.nextLineage, (s.lineage l).heirs n

variable {s : Sys} {owned : Multiset NoteId} {x : Handle}

/-- The handles that only threads have. -/
def inHand : Handle → Bool
  | .transient _ | .last _ | .lock _ => true
  | _ => false

theorem inHand_pages {pages : CachedPages} (h : x ∈ pages.sites) : inHand x = false := by
  obtain ⟨q, -, rfl⟩ := List.mem_map.1 (Multiset.mem_coe.1 h)
  rfl

theorem inHand_table {t : PageTable} (h : x ∈ t.sites) : inHand x = false := by
  rw [PageTable.sites_eq] at h
  obtain ⟨p, -, h⟩ := Multiset.mem_sum.1 h
  cases hpte : t.pte p with
  | none =>
    rw [hpte] at h
    cases h
  | some pte =>
    rw [hpte] at h
    change x ∈ pte.sites at h
    rw [Pte.sites_eq, Multiset.mem_add, Multiset.mem_add, Multiset.mem_singleton,
      Multiset.mem_singleton] at h
    rcases h with (rfl | rfl) | h
    · rfl
    · rfl
    · split_ifs at h
      · rw [Multiset.mem_singleton.1 h]
        rfl
      · cases h

theorem inHand_lineage {v : Lineage} (h : x ∈ v.sites) : inHand x = false := by
  rw [Lineage.sites] at h
  generalize v.members = members at h
  induction members with
  | nil => cases h
  | cons n rest ih =>
    rw [List.map_cons, List.sum_cons, Multiset.mem_add, NoteBody.sites, Multiset.mem_add] at h
    rcases h with (h | h) | h
    · exact inHand_pages h
    · cases hp : (v.body n).cowParent with
      | none =>
        rw [hp] at h
        cases h
      | some p =>
        rw [hp] at h
        rw [Multiset.mem_singleton.1 h]
        rfl
    · exact ih h

theorem inHand_guarded {l : LockId} (h : x ∈ s.guarded l) : inHand x = false := by
  cases l with
  | space i =>
    rw [guarded, Space.sites, Multiset.mem_add] at h
    rcases h with h | h
    · exact inHand_table h
    · obtain ⟨b, -, rfl⟩ := List.mem_map.1 (Multiset.mem_coe.1 h)
      rfl
  | brk i => cases h
  | backing b =>
    rw [guarded] at h
    split_ifs at h
    · cases h
    · exact inHand_pages h
  | lineage l => exact inHand_lineage h

theorem inHand_stored (h : x ∈ s.stored) : inHand x = false := by
  rw [stored, Multiset.mem_add, Multiset.mem_add] at h
  rcases h with (h | h) | h
  · obtain ⟨i, -, h⟩ := Multiset.mem_sum.1 h
    obtain ⟨k, -, h⟩ := Multiset.mem_sum.1 h
    cases he : (s.tlb i).entries k with
    | none =>
      rw [he] at h
      cases h
    | some e =>
      rw [he] at h
      rw [Multiset.mem_singleton.1 h]
      rfl
  · obtain ⟨b, -, h⟩ := Multiset.mem_sum.1 h
    rw [infoPart, BackingInfo.sites] at h
    split_ifs at h
    · cases h
    · cases hn : (s.backingInfo b).note with
      | none =>
        rw [hn] at h
        cases h
      | some n =>
        rw [hn] at h
        rcases Multiset.mem_cons.1 h with rfl | h
        · rfl
        · rw [Multiset.mem_singleton.1 h]
          rfl
  · obtain ⟨l, -, h⟩ := Multiset.mem_sum.1 h
    rw [unheldPart] at h
    split_ifs at h
    · cases h
    · exact inHand_guarded h

theorem count_stored (hfree : ∀ l, s.held l = false) : s.stored.count x =
    ∑ i ∈ Finset.range s.nextSpace, ((s.space i).sites.count x + (s.tlb i).sites.count x) +
      ∑ b ∈ Finset.range s.nextBacking, (if s.backingRefs b = 0 then 0 else
        (CachedPages.sites (s.backingPages b)).count x + (s.backingInfo b).sites.count x) +
      ∑ l ∈ Finset.range s.nextLineage, (s.lineage l).sites.count x := by
  have hpart : ∀ l, s.unheldPart l = s.guarded l := fun l ↦ by
    rw [unheldPart, hfree, if_neg Bool.false_ne_true]
  have hbacking : ∀ b, (if s.backingRefs b = 0 then 0 else
      (CachedPages.sites (s.backingPages b)).count x + (s.backingInfo b).sites.count x) =
      (s.guarded (.backing b)).count x + (s.infoPart b).count x := by
    intro b
    rw [guarded, infoPart]
    split_ifs <;> rfl
  rw [stored, Multiset.count_add, Multiset.count_add, tlbStored, infoStored, sum_locks]
  simp only [hpart, hbacking, Multiset.count_add, Multiset.count_sum', Finset.sum_add_distrib]
  simp only [guarded, Multiset.count_zero, Finset.sum_const_zero]
  omega

theorem table_notMem (hx : ∀ f, x ≠ ref f ∧ x ≠ .map f ∧ x ≠ pin f) (t : PageTable) :
    t.sites.count x = 0 := by
  rw [Multiset.count_eq_zero, PageTable.sites_eq]
  intro hmem
  obtain ⟨p, -, hmem⟩ := Multiset.mem_sum.1 hmem
  cases hpte : t.pte p with
  | none =>
    rw [hpte] at hmem
    cases hmem
  | some pte =>
    rw [hpte] at hmem
    obtain ⟨href, hmap, hpin⟩ := hx pte.frame
    simp [entrySites, Pte.sites, href, hmap] at hmem
    split_ifs at hmem
    · exact hpin (Multiset.mem_singleton.1 hmem)
    · cases hmem

section Balanced

variable {μ : Mode} (h : Inv μ ⟨s, 0, owned.map note⟩)

include h

theorem count_eq (x : Handle) : s.count x = s.stored.count x + (owned.map note).count x := by
  have hx := h.tally x
  rwa [Multiset.count_add, Multiset.count_add, Multiset.count_zero, add_zero] at hx

theorem count_inHand (hx : inHand x = true) : s.count x = 0 := by
  have hstored : x ∉ s.stored := fun hmem ↦ by
    rw [inHand_stored hmem] at hx
    cases hx
  have howned : x ∉ owned.map note := fun hmem ↦ by
    obtain ⟨n, -, rfl⟩ := Multiset.mem_map.1 hmem
    cases hx
  rw [count_eq h, Multiset.count_eq_zero.2 hstored, Multiset.count_eq_zero.2 howned]

theorem held_eq_false (l : LockId) : s.held l = false := by
  have hlock := count_inHand h (x := .lock l) rfl
  by_contra hne
  simp [Sys.count, hne] at hlock

theorem table_count (f : FrameId) {i : SpaceId} (hi : i < s.nextSpace) :
    (s.space i).pageTable.sites.count (ref f) = (s.space i).pageTable.installed f ∧
    (s.space i).pageTable.sites.count (Handle.map f) = (s.space i).pageTable.installed f ∧
    (s.space i).pageTable.sites.count (pin f) = (s.space i).pageTable.installedLocked f := by
  obtain ⟨m, hm⟩ := (h.locks (.space i) (space_mem_locks.2 hi) (held_eq_false h _)).table
  exact ⟨(hm.installed_eq_ref f).symm, (hm.installed_eq f).symm, (hm.installedLocked_eq f).symm⟩

/-- The count of a handle by what it is in a space, a backing and a lineage. -/
theorem count_of_parts (x : Handle) (t g v : ℕ → ℕ)
    (hspace : ∀ i < s.nextSpace, (s.space i).sites.count x + (s.tlb i).sites.count x = t i)
    (hbacking : ∀ b, (if s.backingRefs b = 0 then 0 else
      (CachedPages.sites (s.backingPages b)).count x + (s.backingInfo b).sites.count x) = g b)
    (hlineage : ∀ l, (s.lineage l).sites.count x = v l) :
    s.count x = ∑ i ∈ Finset.range s.nextSpace, t i + ∑ b ∈ Finset.range s.nextBacking, g b +
      ∑ l ∈ Finset.range s.nextLineage, v l + (owned.map note).count x := by
  rw [count_eq h, count_stored (held_eq_false h),
    Finset.sum_congr rfl fun i hi ↦ hspace i (Finset.mem_range.1 hi),
    Finset.sum_congr rfl fun b _ ↦ hbacking b, Finset.sum_congr rfl fun l _ ↦ hlineage l]

theorem refs_eq (f : FrameId) : s.refs f = s.frameUses f := by
  have hcount := count_of_parts h (ref f)
    (fun i ↦ (s.space i).pageTable.installed f + (s.tlb i).uses f)
    (fun b ↦ if s.backingRefs b = 0 then 0 else CachedPages.uses (s.backingPages b) f)
    (fun l ↦ (s.lineage l).uses f) ?_ ?_ ?_
  · have howned : (owned.map note).count (ref f) = 0 := by simp
    rw [howned, add_zero] at hcount
    exact hcount
  · intro i hi
    rw [Space.sites, Multiset.count_add, (table_count h f hi).1, count_bindingSites,
      Tlb.count_sites]
    simp [Tlb.uses]
  · intro b
    rw [CachedPages.count_sites, BackingInfo.count_sites]
    simp [CachedPages.uses]
  · intro l
    rw [Lineage.count_sites]
    simp [CachedPages.count_sites, Lineage.uses, CachedPages.uses]

theorem entry_count {x : Handle} (hx : ∃ f, x = .map f ∨ x = .pin f) (t : ℕ → ℕ)
    (ht : ∀ i < s.nextSpace, (s.space i).pageTable.sites.count x = t i) :
    s.count x = ∑ i ∈ Finset.range s.nextSpace, t i := by
  obtain ⟨f, hf⟩ := hx
  have hcount := count_of_parts h x t (fun _ ↦ 0) (fun _ ↦ 0) ?_ ?_ ?_
  · have howned : (owned.map note).count x = 0 := by
      rcases hf with rfl | rfl <;> simp
    simpa [howned] using hcount
  · intro i hi
    rw [Space.sites, Multiset.count_add, ht i hi, count_bindingSites, Tlb.count_sites]
    rcases hf with rfl | rfl <;> simp
  · intro b
    rw [CachedPages.count_sites, BackingInfo.count_sites]
    rcases hf with rfl | rfl <;> simp
  · intro l
    rw [Lineage.count_sites]
    rcases hf with rfl | rfl <;> simp [CachedPages.count_sites]

theorem backingRefs_eq (b : BackingId) : s.backingRefs b =
    ∑ i ∈ Finset.range s.nextSpace, bindingUses (s.space i).bindings b := by
  have hcount := count_of_parts h (.backing b) (fun i ↦ bindingUses (s.space i).bindings b)
    (fun _ ↦ 0) (fun _ ↦ 0) ?_ ?_ ?_
  · have howned : (owned.map note).count (Handle.backing b) = 0 := by simp
    simpa [howned, Sys.count, held_eq_false h] using hcount
  · intro i _
    rw [Space.sites, Multiset.count_add, table_notMem (by simp), count_bindingSites,
      Tlb.count_sites]
    simp [bindingUses]
  · intro b
    rw [CachedPages.count_sites, BackingInfo.count_sites]
    simp
  · intro l
    rw [Lineage.count_sites]
    simp [CachedPages.count_sites]

theorem activeMappings_eq (n : NoteId) : s.activeMappings n = s.noteBackings n := by
  have hcount := count_of_parts h (.mapping n) (fun _ ↦ 0)
    (fun b ↦ if s.backingRefs b ≠ 0 ∧ (s.backingInfo b).note = some n then 1 else 0)
    (fun _ ↦ 0) ?_ ?_ ?_
  · have howned : (owned.map note).count (Handle.mapping n) = 0 := by simp
    rw [howned, Finset.sum_const_zero, Finset.sum_const_zero, zero_add, add_zero,
      add_zero] at hcount
    exact hcount
  · intro i _
    rw [Space.sites, Multiset.count_add, table_notMem (by simp), count_bindingSites,
      Tlb.count_sites]
    simp
  · intro b
    rw [CachedPages.count_sites, BackingInfo.count_sites]
    by_cases hb : s.backingRefs b = 0 <;> simp [hb]
  · intro l
    rw [Lineage.count_sites]
    simp [CachedPages.count_sites]

theorem noteRefs_eq (n : NoteId) : s.noteRefs n = owned.count n + s.noteBackings n +
    ∑ l ∈ Finset.range s.nextLineage, (s.lineage l).heirs n := by
  have hcount := count_of_parts h (.note n) (fun _ ↦ 0)
    (fun b ↦ if s.backingRefs b ≠ 0 ∧ (s.backingInfo b).note = some n then 1 else 0)
    (fun l ↦ (s.lineage l).heirs n) ?_ ?_ ?_
  · have howned : (owned.map note).count (Handle.note n) = owned.count n :=
      Multiset.count_map_eq_count' note owned (fun _ _ h ↦ Handle.note.inj h) n
    rw [howned, Finset.sum_const_zero, zero_add, add_comm, ← add_assoc] at hcount
    exact hcount
  · intro i _
    rw [Space.sites, Multiset.count_add, table_notMem (by simp), count_bindingSites,
      Tlb.count_sites]
    simp
  · intro b
    rw [CachedPages.count_sites, BackingInfo.count_sites]
    by_cases hb : s.backingRefs b = 0 <;> simp [hb]
  · intro l
    have hheir : ∀ k, ((s.lineage l).body k).cowParent.any (fun m ↦ note m = note n) =
        decide (((s.lineage l).body k).cowParent = some n) := fun k ↦ by
      cases ((s.lineage l).body k).cowParent <;> simp
    rw [Lineage.count_sites, Lineage.heirs, funext hheir]
    simp [CachedPages.count_sites]

theorem balanced : s.Balanced owned where
  free := held_eq_false h
  refs := refs_eq h
  mappings f := entry_count h ⟨f, .inl rfl⟩ _ fun i hi ↦ (table_count h f hi).2.1
  pins f := entry_count h ⟨f, .inr rfl⟩ _ fun i hi ↦ (table_count h f hi).2.2
  transient f := count_inHand h (x := .transient f) rfl
  frames f := by
    refine ⟨fun hf ↦ ?_, h.live f⟩
    have hlast := count_inHand h (x := .last f) rfl
    by_contra hzero
    simp [Sys.count, hf, Nat.eq_zero_of_not_pos hzero] at hlast
  backings := backingRefs_eq h
  active := activeMappings_eq h
  notes := noteRefs_eq h

end Balanced

end Sys

namespace SpaceOk

variable {μ : Mode} {s : Sys} {i : SpaceId} {c : Space}

/-- Without bindings there is no mapping, hence no entry and no translation. -/
theorem pte_eq_none (h : SpaceOk μ s i c) (hb : c.bindings = []) (p : ℕ) :
    c.pageTable.pte p = none := by
  cases hpte : c.pageTable.pte p with
  | none => rfl
  | some pte =>
    obtain ⟨v, hv, -⟩ := h.entry p pte hpte
    obtain ⟨-, b, hfind, -⟩ := h.bound v ((VmaSnapshot.lookup_eq_some h.snapshot).1 hv).1
    rw [hb] at hfind
    cases hfind

theorem installed_eq_zero (h : SpaceOk μ s i c) (hb : c.bindings = []) (f : FrameId) :
    c.pageTable.installed f = 0 ∧ c.pageTable.installedLocked f = 0 ∧ (s.tlb i).uses f = 0 := by
  obtain ⟨m, hm⟩ := h.table
  have hsites : c.pageTable.sites = 0 := by
    rw [PageTable.sites_eq]
    refine Finset.sum_eq_zero fun p _ ↦ ?_
    rw [h.pte_eq_none hb]
    rfl
  have hentries : ∀ k, (s.tlb i).entries k = none := by
    intro k
    cases he : (s.tlb i).entries k with
    | none => rfl
    | some e =>
      have hpte := h.tlb k e he
      rw [h.pte_eq_none hb] at hpte
      cases hpte
  rw [hm.installed_eq, hm.installedLocked_eq, hsites]
  refine ⟨rfl, rfl, Finset.sum_eq_zero fun k _ ↦ ?_⟩
  rw [hentries]
  rfl

end SpaceOk

theorem Lineage.exists_of_uses {v : Lineage} {f : FrameId} (h : v.uses f ≠ 0) :
    ∃ n ∈ v.members, ∃ offset, (offset, f) ∈ v.pages n := by
  by_contra hnone
  refine h (List.sum_eq_zero fun count hcount ↦ ?_)
  obtain ⟨n, hn, rfl⟩ := List.mem_map.1 hcount
  refine List.countP_eq_zero.2 fun q hq hf ↦ ?_
  rw [decide_eq_true_eq] at hf
  exact hnone ⟨n, hn, q.1, hf ▸ hq⟩

namespace Pool

variable {p : Pool}

theorem Reachable.inv_idle (h : Reachable false p) (hidle : p.threads = 0) :
    ∃ μ, Inv μ ⟨p.sys, 0, p.owned.map note⟩ := by
  obtain ⟨held, hthreads, hinv, -⟩ := h.ok
  rw [hidle, Multiset.map_eq_zero] at hthreads
  subst hthreads
  rw [Multiset.map_zero, Multiset.sum_zero, add_zero] at hinv
  exact ⟨_, hinv⟩

/-- When no call is in progress, every lock is free, and every counter of a frame, a backing or a
note is the number of references that the spaces, the backings, the notes and the clients have. -/
theorem balanced_of_idle (h : Reachable false p) (hidle : p.threads = 0) :
    p.sys.Balanced p.owned := by
  obtain ⟨μ, hinv⟩ := h.inv_idle hidle
  exact Sys.balanced hinv

theorem balanced_of_idle_write : ∃ p pte, Reachable false p ∧ p.threads = 0 ∧
    (p.sys.space 0).pteAt 0x100000 = some pte ∧ p.sys.Balanced p.owned := by
  obtain ⟨p, hp, htest⟩ := (Option.any_eq_true _ _).1 performAll_write
  rw [lockedAndCached, Bool.and_eq_true, Bool.and_eq_true] at htest
  obtain ⟨pte, hpte, -⟩ := (Option.any_eq_true _ _).1 htest.1.2
  have hreach := (reachable_fresh.performAll hp).always
  have hidle : p.threads = 0 := performAll_threads hp
  exact ⟨p, pte, hreach, hidle, hpte, balanced_of_idle hreach hidle⟩

/-- When no call is in progress and no space has a binding left, nothing of the mappings remains:
no backing, no mapping of a note, no entry and no pin of a frame. The frames that are left are pages
of notes. -/
theorem unmapped_of_idle (h : Reachable false p) (hidle : p.threads = 0)
    (hspaces : ∀ i < p.sys.nextSpace, (p.sys.space i).bindings = []) :
    (∀ b, p.sys.backingRefs b = 0) ∧ (∀ n, p.sys.activeMappings n = 0) ∧
    ∀ f, ((p.sys.store.frame f).mappings = 0 ∧ (p.sys.store.frame f).pinCount = 0 ∧
        (p.sys.store.frame f).transientPinCount = 0) ∧
      p.sys.refs f = ∑ l ∈ Finset.range p.sys.nextLineage, (p.sys.lineage l).uses f ∧
      (f ∈ p.sys.store.frames → ∃ l < p.sys.nextLineage, ∃ n ∈ (p.sys.lineage l).members,
        ∃ offset, (offset, f) ∈ (p.sys.lineage l).pages n) := by
  obtain ⟨μ, hinv⟩ := h.inv_idle hidle
  have hbalanced := Sys.balanced hinv
  have hbackings : ∀ b, p.sys.backingRefs b = 0 := by
    intro b
    rw [hbalanced.backings]
    refine Finset.sum_eq_zero fun i hi ↦ ?_
    rw [hspaces i (Finset.mem_range.1 hi)]
    rfl
  have hzero : ∀ i ∈ Finset.range p.sys.nextSpace, ∀ f, _ := fun i hi f ↦
    (h.spaceOk (Finset.mem_range.1 hi) (hbalanced.free _)).installed_eq_zero
      (hspaces i (Finset.mem_range.1 hi)) f
  have hrefs : ∀ f, p.sys.refs f =
      ∑ l ∈ Finset.range p.sys.nextLineage, (p.sys.lineage l).uses f := by
    intro f
    rw [hbalanced.refs, Sys.frameUses, Finset.sum_eq_zero, Finset.sum_eq_zero, zero_add, zero_add]
    · exact fun b _ ↦ if_pos (hbackings b)
    · intro i hi
      rw [(hzero i hi f).1, (hzero i hi f).2.2, add_zero]
  refine ⟨hbackings, fun n ↦ ?_, fun f ↦ ⟨⟨?_, ?_, hbalanced.transient f⟩, hrefs f, fun hf ↦ ?_⟩⟩
  · rw [hbalanced.active]
    exact Finset.sum_eq_zero fun b _ ↦ if_neg fun hb ↦ hb.1 (hbackings b)
  · rw [hbalanced.mappings]
    exact Finset.sum_eq_zero fun i hi ↦ (hzero i hi f).1
  · rw [hbalanced.pins]
    exact Finset.sum_eq_zero fun i hi ↦ (hzero i hi f).2.1
  · have hpos := (hbalanced.frames f).1 hf
    rw [hrefs] at hpos
    obtain ⟨l, hl, hne⟩ := Finset.exists_ne_zero_of_sum_ne_zero hpos.ne'
    exact ⟨l, Finset.mem_range.1 hl, Lineage.exists_of_uses hne⟩

/-- A note with one page, and a space that has been written to and destroyed. -/
def writeAndDestroy : List Task :=
  [.call (.noteCreate pageSize { read := true, write := true }), .call (.notePwrite 0 0 [1]),
    .call .spaceCreate, .call (.mmap 0 onePage), .call (.write 0 0x100000 [1] 5),
    .call (.spaceDestroy 0)]

set_option maxRecDepth 100000 in
theorem performAll_destroy : (performAll false 200 writeAndDestroy fresh).any (fun p ↦
    decide (p.sys.nextSpace = 1) && decide ((p.sys.space 0).bindings = []) &&
      !p.sys.store.frames.isEmpty) = true := by
  decide +kernel

theorem unmapped_of_idle_destroy : ∃ p, Reachable false p ∧ p.threads = 0 ∧ ∃ f l n offset,
    f ∈ p.sys.store.frames ∧ (offset, f) ∈ (p.sys.lineage l).pages n := by
  obtain ⟨p, hp, htest⟩ := (Option.any_eq_true _ _).1 performAll_destroy
  simp only [Bool.and_eq_true, decide_eq_true_eq, Bool.not_eq_true'] at htest
  obtain ⟨⟨hspaces, hbindings⟩, hframes⟩ := htest
  obtain ⟨f, hf⟩ := List.exists_mem_of_ne_nil _ (List.isEmpty_eq_false_iff.1 hframes)
  have hreach : Reachable false p := reachable_fresh.performAll hp
  have hidle : p.threads = 0 := performAll_threads hp
  have hempty : ∀ i < p.sys.nextSpace, (p.sys.space i).bindings = [] := by
    intro i hi
    rw [hspaces, Nat.lt_one_iff] at hi
    rw [hi, hbindings]
  obtain ⟨l, -, n, -, offset, hpage⟩ := ((unmapped_of_idle hreach hidle hempty).2.2 f).2.2 hf
  exact ⟨p, hreach, hidle, f, l, n, offset, hf, hpage⟩

end Pool

end MiniMM
