import MiniMM.Logic.Quiet
import MiniMM.Spec.Entries

/-!
# Page tables that share frames

Any number of page tables refer to the frames of one system, and functions of the page table are
called in any order. The counts of a frame are those of the entries that refer to it.
-/

namespace MiniMM

open Handle

namespace PageTable

/-- The installed entries that refer to a frame. -/
def installed (t : PageTable) (f : FrameId) : ℕ :=
  t.entries.countP fun e ↦ e.2.frame = f

/-- Those of them that are locked. -/
def installedLocked (t : PageTable) (f : FrameId) : ℕ :=
  t.entries.countP fun e ↦ e.2.frame = f && e.2.flags.locked

/-- The frame that an update puts into an entry. -/
def Update.frame? : Update → Option FrameId
  | .map _ frame _ _ => some frame
  | .replaceFrame _ frame _ _ _ => some frame
  | _ => none

end PageTable

/-- The page tables of a system, and the references to frames that their users have. -/
structure Tables where
  sys : Sys
  tables : Multiset PageTable
  refs : Multiset FrameId

namespace Tables

/-- Somebody refers to the frame. -/
def Refers (T : Tables) (f : FrameId) : Prop :=
  f ∈ T.refs ∨ ∃ t ∈ T.tables, ∃ address pte, t.lookup address = some pte ∧ pte.frame = f

/-- A call, or a step of a user of the tables. -/
inductive Step : Tables → Tables → Prop where
  | create {s : Sys} {tables : Multiset PageTable} {refs : Multiset FrameId} :
      Step ⟨s, tables, refs⟩ ⟨s, .empty ::ₘ tables, refs⟩
  | update {s s' : Sys} {t t' : PageTable} {tables : Multiset PageTable}
      {refs : Multiset FrameId} {u : PageTable.Update} {status : Status} :
      (∀ f ∈ u.frame?, Refers ⟨s, t ::ₘ tables, refs⟩ f) →
      (u.code t).run s = .done (status, t') s' →
      Step ⟨s, t ::ₘ tables, refs⟩ ⟨s', t' ::ₘ tables, refs⟩
  | destroy {s s' : Sys} {t : PageTable} {tables : Multiset PageTable} {refs : Multiset FrameId} :
      t.destroy.run s = .done () s' → Step ⟨s, t ::ₘ tables, refs⟩ ⟨s', tables, refs⟩
  | frame {s s' : Sys} {tables : Multiset PageTable} {refs : Multiset FrameId}
      {source : FrameSource} {b : FileId} {offset : ℕ} {shared : Bool} {r : Status × FrameId} :
      (Code.create source b offset shared).run s = .done r s' →
      Step ⟨s, tables, refs⟩ ⟨s', tables, if r.1 = .ok then r.2 ::ₘ refs else refs⟩
  | retain {s s' : Sys} {tables : Multiset PageTable} {refs : Multiset FrameId} {f : FrameId} :
      Refers ⟨s, tables, refs⟩ f → (frameRetain f).run s = .done () s' →
      Step ⟨s, tables, refs⟩ ⟨s', tables, f ::ₘ refs⟩
  | release {s s' : Sys} {tables : Multiset PageTable} {refs : Multiset FrameId} {f : FrameId} :
      (frameRelease f).run s = .done () s' →
      Step ⟨s, tables, f ::ₘ refs⟩ ⟨s', tables, refs⟩
  /-- A read, a write or a page-in of a frame. -/
  | request {s s' : Sys} {tables : Multiset PageTable} {refs : Multiset FrameId} {f : FrameId}
      {r : FrameStore.Request} {reply : FrameStore.Reply} : Refers ⟨s, tables, refs⟩ f →
      (Code.request f r).run s = .done reply s' → Step ⟨s, tables, refs⟩ ⟨s', tables, refs⟩
  | reclaim {s s' : Sys} {tables : Multiset PageTable} {refs : Multiset FrameId} {targetPages : ℕ}
      {r : FrameStore.ReclaimResult} :
      (Code.store (.reclaim targetPages)).run s = .done r s' →
      Step ⟨s, tables, refs⟩ ⟨s', tables, refs⟩

inductive Reachable : Tables → Prop where
  | create (host : Host) (file : FileId → FileBacking) (pageCount tlbEntries : ℕ) :
      Reachable ⟨.created host file pageCount tlbEntries, 0, 0⟩
  | step {T T' : Tables} : Reachable T → Step T T' → Reachable T'

end Tables

/-! ## Counts and handles -/

namespace PageTable

variable {t t' : PageTable} {m : PageMap} {f : FrameId}

theorem count_map_sites (pte : Pte) (f : FrameId) :
    pte.sites.count (Handle.map f) = if decide (pte.frame = f) then 1 else 0 := by
  have hpin : (if pte.flags.locked then ({pin pte.frame} : Multiset Handle) else 0).count
      (Handle.map f) = 0 := by
    split_ifs <;> simp
  rw [Pte.sites_eq, Multiset.count_add, Multiset.count_add, hpin, Multiset.count_singleton,
    Multiset.count_singleton]
  simp [eq_comm]

theorem count_ref_sites (pte : Pte) (f : FrameId) :
    pte.sites.count (ref f) = if decide (pte.frame = f) then 1 else 0 := by
  have hpin : (if pte.flags.locked then ({pin pte.frame} : Multiset Handle) else 0).count
      (ref f) = 0 := by
    split_ifs <;> simp
  rw [Pte.sites_eq, Multiset.count_add, Multiset.count_add, hpin, Multiset.count_singleton,
    Multiset.count_singleton]
  simp [eq_comm]

theorem count_pin_sites (pte : Pte) (f : FrameId) :
    pte.sites.count (Handle.pin f) = if pte.frame = f && pte.flags.locked then 1 else 0 := by
  rw [Pte.sites_eq, Multiset.count_add, Multiset.count_add, Multiset.count_singleton,
    Multiset.count_singleton]
  cases pte.flags.locked <;> simp [Multiset.count_singleton, eq_comm]

theorem count_entriesSites {x : Handle} {test : Pte → Bool}
    (h : ∀ pte, pte.sites.count x = if test pte then 1 else 0) (l : List (ℕ × Pte)) :
    (entriesSites l).count x = l.countP fun e ↦ test e.2 := by
  induction l with
  | nil => rfl
  | cons e rest ih =>
    rw [entriesSites, List.map_cons, List.sum_cons, Multiset.count_add, h, List.countP_cons,
      ← ih, add_comm]
    rfl

theorem Represents.installed_eq (h : t.Represents m) (f : FrameId) :
    t.installed f = t.sites.count (Handle.map f) := by
  rw [h.sites_entries, count_entriesSites (fun pte ↦ count_map_sites pte f)]
  rfl

theorem Represents.installed_eq_ref (h : t.Represents m) (f : FrameId) :
    t.installed f = t.sites.count (ref f) := by
  rw [h.sites_entries, count_entriesSites (fun pte ↦ count_ref_sites pte f)]
  rfl

theorem Represents.installedLocked_eq (h : t.Represents m) (f : FrameId) :
    t.installedLocked f = t.sites.count (Handle.pin f) := by
  rw [h.sites_entries, count_entriesSites (fun pte ↦ count_pin_sites pte f)]
  rfl

/-- An entry with `COW` allows neither writing nor editing. -/
def CowReadOnly (m : PageMap) : Prop :=
  ∀ p pte, m.lookup p = some pte → pte.flags.cow = true → pte.protection.writable = false

theorem effectiveProtection_cow {protection : Prot} {flags : PteFlags} (h : flags.cow = true) :
    (effectiveProtection protection flags).writable = false := by
  rw [effectiveProtection, if_pos h]
  rfl

theorem CowReadOnly.insert (h : CowReadOnly m) {p : ℕ} {pte : Pte}
    (hpte : pte.flags.cow = true → pte.protection.writable = false) :
    CowReadOnly (m.insert p pte) := by
  intro q pte' hq
  by_cases hqp : q = p
  · subst hqp
    rw [Finmap.lookup_insert] at hq
    cases hq
    exact hpte
  · rw [Finmap.lookup_insert_of_ne _ hqp] at hq
    exact h q pte' hq

theorem CowReadOnly.modify (h : CowReadOnly m) (address : ℕ) (set clear : PteFlags)
    {g : Pte → Pte} (hg : ∀ pte, (g pte).flags.cow = true → (g pte).protection.writable = false) :
    CowReadOnly (modify m address set clear g).2 := by
  unfold PageTable.modify
  split_ifs
  · exact h
  · split
    · exact h
    · exact h.insert (hg _)

theorem CowReadOnly.perform (h : CowReadOnly m) (u : Update) : CowReadOnly (u.perform m).2 := by
  cases u with
  | map address frame protection flags =>
    simp only [Update.perform]
    split_ifs
    · exact h
    · exact h
    · exact h.insert effectiveProtection_cow
  | unmap address =>
    simp only [Update.perform]
    split_ifs
    · exact h
    · intro q pte hq
      by_cases hqp : q = address / pageSize
      · rw [hqp, Finmap.lookup_erase] at hq
        cases hq
      · rw [Finmap.lookup_erase_ne hqp] at hq
        exact h q pte hq
    · exact h
  | updateAttributes | updateFlags | protect | replaceFrame =>
    exact h.modify _ _ _ fun _ ↦ effectiveProtection_cow

/-- Every update changes the handles of its caller as it changes the entries. -/
theorem Update.spec {μ : Mode} (hprompt : μ.prompt = false) (h : t.Represents m) (u : Update)
    {K : Multiset Handle} (href : ∀ f ∈ u.frame?, ref f ∈ K + t.sites) :
    Triple μ K t.sites (fun _ ↦ True) (u.code t) (fun r ↦ r.2.sites) fun _ _ ↦ True := by
  have hlocked : ∀ s, LockedResident μ s t Set.univ := fun _ _ _ _ _ _ hp ↦
    absurd (Set.mem_univ _) hp
  have hno : ¬μ.prompt = true := by simp [hprompt]
  cases u with
  | map address frame protection flags =>
    exact (map_spec h (href frame rfl) fun h ↦ absurd h hno).conseq
      (fun s _ ↦ ⟨hlocked s, fun h ↦ absurd h hno⟩) (fun _ ↦ rfl) fun _ _ _ ↦ trivial
  | unmap address =>
    exact ((unmap_spec h).borrow zero_le).conseq (fun s _ ↦ hlocked s) (fun _ ↦ rfl)
      fun _ _ _ ↦ trivial
  | updateAttributes | protect =>
    exact ((updateAttributes_spec h fun _ ↦ Set.mem_univ _).borrow zero_le).conseq
      (fun s _ ↦ hlocked s) (fun _ ↦ rfl) fun _ _ _ ↦ trivial
  | updateFlags =>
    exact ((updateFlags_spec h fun _ ↦ Set.mem_univ _).borrow zero_le).conseq
      (fun s _ ↦ hlocked s) (fun _ ↦ rfl) fun _ _ _ ↦ trivial
  | replaceFrame address frame protection set clear =>
    exact (replaceFrame_spec h (href frame rfl)).conseq (fun s _ ↦ hlocked s) (fun _ ↦ rfl)
      fun _ _ _ ↦ trivial

theorem Update.silent (u : Update) : Code.Silent (u.code t) := by
  cases u with
  | map => exact silent_map
  | unmap => exact silent_unmap
  | updateAttributes | protect => exact silent_updateAttributes
  | updateFlags => exact silent_updateFlags
  | replaceFrame => exact silent_replaceFrame

end PageTable

theorem Sys.notMem_stored {s : Sys} (hs : s.nextSpace = 0) {x : Handle} {f : FrameId}
    (hx : x = .map f ∨ x = .pin f) : x ∉ s.stored := by
  have hpages : ∀ pages : CachedPages, x ∉ pages.sites := by
    intro pages hmem
    obtain ⟨e, -, rfl⟩ := List.mem_map.1 (Multiset.mem_coe.1 hmem)
    rcases hx with h | h <;> cases h
  intro hmem
  rw [Sys.stored, Multiset.mem_add, Multiset.mem_add] at hmem
  rcases hmem with (hmem | hmem) | hmem
  · rw [Sys.tlbStored, hs] at hmem
    exact Multiset.notMem_zero x hmem
  · obtain ⟨b, -, hmem⟩ := Multiset.mem_sum.1 hmem
    rw [Sys.infoPart, BackingInfo.sites] at hmem
    split_ifs at hmem
    · exact Multiset.notMem_zero x hmem
    · split at hmem
      · exact Multiset.notMem_zero x hmem
      · rcases hx with rfl | rfl <;> simp at hmem
  · obtain ⟨l, hl, hmem⟩ := Multiset.mem_sum.1 hmem
    rw [Sys.unheldPart] at hmem
    split_ifs at hmem
    · exact Multiset.notMem_zero x hmem
    cases l with
    | space i =>
      rw [Sys.space_mem_locks, hs] at hl
      exact Nat.not_lt_zero i hl
    | brk i => exact Multiset.notMem_zero x hmem
    | backing b =>
      rw [Sys.guarded] at hmem
      split_ifs at hmem
      · exact Multiset.notMem_zero x hmem
      · exact hpages _ hmem
    | lineage l =>
      have hbody : ∀ b : NoteBody, x ∉ b.sites := by
        intro b hmem
        rcases Multiset.mem_add.1 hmem with hmem | hmem
        · exact hpages _ hmem
        · cases hparent : b.cowParent with
          | none => rw [hparent] at hmem; exact Multiset.notMem_zero x hmem
          | some n =>
            rw [hparent] at hmem
            cases Multiset.mem_singleton.1 hmem
            rcases hx with h | h <;> cases h
      have hmembers : ∀ members : List NoteId,
          x ∉ (members.map fun n ↦ ((s.lineage l).body n).sites).sum := by
        intro members
        induction members with
        | nil => exact Multiset.notMem_zero x
        | cons n rest ih =>
          rw [List.map_cons, List.sum_cons, Multiset.mem_add, not_or]
          exact ⟨hbody _, ih⟩
      exact hmembers _ hmem

/-! ## The invariant of the tables -/

namespace Tables

open PageTable

variable {T T' : Tables} {s s' : Sys} {f : FrameId}

/-- What the tables and their users hold. -/
noncomputable def handles (T : Tables) : Multiset Handle :=
  (T.tables.map PageTable.sites).sum + T.refs.map ref

structure Ok (T : Tables) : Prop where
  inv : Inv ⟨true, false⟩ ⟨T.sys, T.handles, 0⟩
  noSpace : T.sys.nextSpace = 0
  table : ∀ t ∈ T.tables, ∃ m, t.Represents m ∧ CowReadOnly m

theorem Ok.mem_handles (h : T.Ok) (hf : T.Refers f) : ref f ∈ T.handles := by
  rw [handles, Multiset.mem_add]
  rcases hf with hf | ⟨t, ht, address, pte, hpte, rfl⟩
  · exact .inr (Multiset.mem_map_of_mem _ hf)
  · obtain ⟨m, hm, -⟩ := h.table t ht
    rw [hm.lookup_pte] at hpte
    left
    refine Multiset.mem_of_le (Multiset.single_le_sum (fun _ _ ↦ zero_le) _
      (Multiset.mem_map_of_mem _ ht)) ?_
    exact Multiset.mem_of_le (Inv.pte_sites_le hpte) (Inv.ref_mem_sites pte)

theorem Ok.run (h : T.Ok) {α : Type} {p : Code α} {a : α} {K H F : Multiset Handle}
    {G : α → Multiset Handle}
    (hp : Triple ⟨true, false⟩ K H (fun _ ↦ True) p G fun _ _ ↦ True) (hsilent : Code.Silent p)
    (hH : T.handles = H + F) (hK : K ≤ F) (hrun : p.run T.sys = .done a s') :
    Inv ⟨true, false⟩ ⟨s', G a + F, 0⟩ ∧ s'.nextSpace = 0 := by
  have hinv := h.inv
  rw [hH] at hinv
  refine ⟨(hp.ends rfl hK hinv trivial a s' hrun).1, ?_⟩
  rw [(hsilent.run hrun).2.nextSpace, h.noSpace]

theorem handles_cons (s : Sys) (t : PageTable) (tables : Multiset PageTable)
    (refs : Multiset FrameId) :
    handles ⟨s, t ::ₘ tables, refs⟩ = t.sites + handles ⟨s, tables, refs⟩ := by
  rw [handles, handles, Multiset.map_cons, Multiset.sum_cons, add_assoc]

theorem handles_ref (s : Sys) (f : FrameId) (tables : Multiset PageTable)
    (refs : Multiset FrameId) :
    handles ⟨s, tables, f ::ₘ refs⟩ = {ref f} + handles ⟨s, tables, refs⟩ := by
  rw [handles, handles]
  dsimp only
  rw [Multiset.map_cons, ← Multiset.singleton_add]
  abel

theorem Ok.step (h : T.Ok) (hstep : Step T T') : T'.Ok := by
  cases hstep with
  | create =>
    refine ⟨?_, h.noSpace, fun t ht ↦ ?_⟩
    · rw [handles_cons, sites_empty, zero_add]
      exact h.inv
    · rcases Multiset.mem_cons.1 ht with rfl | ht
      · exact ⟨∅, represents_empty, fun p pte hp ↦ by cases hp⟩
      · exact h.table t ht
  | @update s s' t t' tables refs u status hrefers hrun =>
    obtain ⟨m, hm, hcow⟩ := h.table t (Multiset.mem_cons_self t tables)
    have href : ∀ f ∈ u.frame?, ref f ∈ handles ⟨s, tables, refs⟩ + t.sites := by
      intro f hf
      rw [add_comm, ← handles_cons s]
      exact h.mem_handles (hrefers f hf)
    obtain ⟨hinv, hspace⟩ := h.run (u.spec rfl hm href) u.silent (handles_cons ..) le_rfl hrun
    refine ⟨?_, hspace, fun t1 ht1 ↦ ?_⟩
    · rw [handles_cons]
      exact hinv
    · rcases Multiset.mem_cons.1 ht1 with rfl | ht1
      · rcases Update.follows hm hrun with ⟨-, hm'⟩ | ⟨-, -, -, hm', -⟩
        · exact ⟨_, hm', hcow.perform u⟩
        · exact ⟨m, hm', hcow⟩
      · exact h.table t1 (Multiset.mem_cons_of_mem ht1)
  | @destroy s s' t tables refs hrun =>
    obtain ⟨m, hm, -⟩ := h.table t (Multiset.mem_cons_self t tables)
    have hentries := hm.sites_entries
    rw [destroy] at hrun
    generalize t.entries = entries at hrun hentries
    obtain ⟨hinv, hspace⟩ := h.run (destroyEntries_spec entries) (silent_destroyEntries entries)
      (by rw [handles_cons, hentries]) zero_le hrun
    refine ⟨?_, hspace, fun t1 ht1 ↦ h.table t1 (Multiset.mem_cons_of_mem ht1)⟩
    rwa [zero_add] at hinv
  | @frame s s' tables refs source b offset shared r hrun =>
    obtain ⟨hinv, hspace⟩ := h.run (create_spec source b offset shared) Code.silent_create
      (zero_add _).symm zero_le hrun
    refine ⟨?_, hspace, h.table⟩
    dsimp only at hinv ⊢
    split_ifs with hok
    · rw [hok, got_ok] at hinv
      rwa [handles_ref]
    · rwa [got_of_ne hok, zero_add] at hinv
  | @retain s s' tables refs f hrefers hrun =>
    obtain ⟨hinv, hspace⟩ := h.run retain_spec silent_frameRetain (zero_add _).symm
      (Multiset.singleton_le.2 (h.mem_handles hrefers)) hrun
    refine ⟨?_, hspace, h.table⟩
    rwa [handles_ref]
  | @release s s' tables refs f hrun =>
    obtain ⟨hinv, hspace⟩ := h.run release_spec silent_frameRelease (handles_ref ..) zero_le hrun
    refine ⟨?_, hspace, h.table⟩
    rwa [zero_add] at hinv
  | @request s s' tables refs f r reply hrefers hrun =>
    obtain ⟨hinv, hspace⟩ := h.run (request_spec r) Code.silent_request (zero_add _).symm
      (Multiset.singleton_le.2 (h.mem_handles hrefers)) hrun
    refine ⟨?_, hspace, h.table⟩
    rwa [zero_add] at hinv
  | @reclaim s s' tables refs targetPages r hrun =>
    obtain ⟨hinv, hspace⟩ := h.run (reclaim_spec targetPages) Code.silent_store
      (zero_add _).symm zero_le hrun
    refine ⟨?_, hspace, h.table⟩
    rwa [zero_add] at hinv

theorem Reachable.ok (h : Reachable T) : T.Ok := by
  induction h with
  | create host file pageCount tlbEntries =>
    refine ⟨?_, rfl, fun t ht ↦ absurd ht (Multiset.notMem_zero t)⟩
    rw [show handles _ = 0 from rfl]
    exact Inv.created host file pageCount tlbEntries
  | step _ hstep ih => exact ih.step hstep

/-! ## The counts of a frame -/

theorem Ok.count (h : T.Ok) {x : Handle} (hx : x = .map f ∨ x = .pin f) :
    T.sys.count x = (T.tables.map fun t ↦ t.sites.count x).sum := by
  have hrefs : (T.refs.map ref).count x = 0 := by
    refine Multiset.count_eq_zero.2 fun hmem ↦ ?_
    obtain ⟨g, -, rfl⟩ := Multiset.mem_map.1 hmem
    rcases hx with h | h <;> cases h
  have hsum : (T.tables.map PageTable.sites).sum.count x =
      (T.tables.map fun t ↦ t.sites.count x).sum := by
    rw [Multiset.count_sum]
  rw [h.inv.tally x, add_zero, Multiset.count_add,
    Multiset.count_eq_zero.2 (Sys.notMem_stored h.noSpace hx), zero_add, handles,
    Multiset.count_add, hrefs, add_zero, hsum]

theorem Ok.view (h : T.Ok) {t : PageTable} (ht : t ∈ T.tables) :
    ∃ F, Inv ⟨true, false⟩ ⟨T.sys, t.sites + F, 0⟩ ∧ T.handles = t.sites + F := by
  obtain ⟨rest, hrest⟩ := Multiset.exists_cons_of_mem ht
  have hhandles : T.handles = t.sites + handles ⟨T.sys, rest, T.refs⟩ := by
    rw [← handles_cons, ← hrest]
  exact ⟨_, hhandles ▸ h.inv, hhandles⟩

theorem Ok.update_counted (h : T.Ok) {t : PageTable} (ht : t ∈ T.tables) {u : Update}
    (hu : ∀ f ∈ u.frame?, T.Refers f) : Code.Counted (u.code t) T.sys := by
  obtain ⟨m, hm, -⟩ := h.table t ht
  obtain ⟨F, hinv, hhandles⟩ := h.view ht
  have href : ∀ f ∈ u.frame?, ref f ∈ F + t.sites := by
    intro f hf
    rw [add_comm, ← hhandles]
    exact h.mem_handles (hu f hf)
  exact (u.spec rfl hm href).counted rfl le_rfl hinv trivial

theorem Ok.destroy_counted (h : T.Ok) {t : PageTable} (ht : t ∈ T.tables) {p : Code Unit}
    (hp : t.destroy = p) : p.Counted T.sys := by
  obtain ⟨m, hm, -⟩ := h.table t ht
  obtain ⟨F, hinv, -⟩ := h.view ht
  have hentries := hm.sites_entries
  rw [destroy] at hp
  generalize t.entries = entries at hp hentries
  rw [hentries] at hinv
  rw [← hp]
  exact (destroyEntries_spec entries).counted rfl zero_le hinv trivial

/-- The counts of a frame are those of the entries that refer to it, in all tables together. An
entry with `COW` allows no writing. No function of the page table gives up a count that has not been
taken, so `minimm_frame_unmap` does not abort and `minimm_frame_unpin` does not meet its floor. -/
theorem Reachable.counts_installed (h : Reachable T) :
    (∀ f, (T.sys.store.frame f).mappings = (T.tables.map fun t ↦ t.installed f).sum ∧
      (T.sys.store.frame f).pinCount = (T.tables.map fun t ↦ t.installedLocked f).sum) ∧
    ∀ t ∈ T.tables,
      (∀ address pte, t.lookup address = some pte → pte.flags.cow = true →
        pte.protection.write = false ∧ pte.protection.edit = false) ∧
      (∀ u : Update, (∀ f ∈ u.frame?, T.Refers f) → Code.Counted (u.code t) T.sys) ∧
      Code.Counted t.destroy T.sys := by
  have hok := h.ok
  refine ⟨fun f ↦ ⟨?_, ?_⟩, fun t ht ↦ ⟨fun address pte hpte hcow ↦ ?_, fun u hu ↦ ?_, ?_⟩⟩
  · refine (hok.count (.inl rfl)).trans
      (congrArg Multiset.sum (Multiset.map_congr rfl fun t ht ↦ ?_))
    obtain ⟨m, hm, -⟩ := hok.table t ht
    exact (hm.installed_eq f).symm
  · refine (hok.count (.inr rfl)).trans
      (congrArg Multiset.sum (Multiset.map_congr rfl fun t ht ↦ ?_))
    obtain ⟨m, hm, -⟩ := hok.table t ht
    exact (hm.installedLocked_eq f).symm
  · obtain ⟨m, hm, hreadOnly⟩ := hok.table t ht
    rw [hm.lookup_eq] at hpte
    have hwritable := hreadOnly _ pte hpte hcow
    rwa [Prot.writable, Bool.or_eq_false_iff] at hwritable
  · exact hok.update_counted ht hu
  · exact hok.destroy_counted ht rfl

theorem exists_lockedPage : ∃ T, Reachable T ∧ (T.sys.store.frame 1).mappings = 1 ∧
    (T.sys.store.frame 1).pinCount = 1 := by
  have hframe : Reachable _ := ((Reachable.create .reliable (fun _ ↦ ⟨fun _ ↦ 0, .ok⟩) 1 1).step
    .create).step (@Step.frame _ _ _ _ .zero 0 0 false _ rfl)
  refine ⟨_, hframe.step (.update (u := .map pageSize 1 {} { locked := true }) ?_ rfl), rfl, rfl⟩
  intro f hf
  cases hf
  exact .inl (show (1 : FrameId) ∈ (1 ::ₘ 0 : Multiset FrameId) from Multiset.mem_cons_self 1 0)

theorem counts_installed_lockedPage :
    ∃ T, Reachable T ∧ (T.tables.map fun t ↦ t.installed 1).sum = 1 ∧
      (T.tables.map fun t ↦ t.installedLocked 1).sum = 1 := by
  obtain ⟨T, h, hmappings, hpins⟩ := exists_lockedPage
  have hcounts := h.counts_installed.1 1
  exact ⟨T, h, hcounts.1 ▸ hmappings, hcounts.2 ▸ hpins⟩

end Tables

end MiniMM
