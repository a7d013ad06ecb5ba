import MiniMM.Fork
import MiniMM.Spec.MemoryApi

/-!
# The specification of `minimm_space_fork`

Two passes over the entries of the parent: the first gives the child its entries, the second marks
those of the parent. Only the first can fail, and it leaves the parent alone.
-/

namespace MiniMM

open Handle Vma PageTable VmaSnapshot

theorem VmaSnapshot.clone_built {s : VmaSnapshot} (h : s.Good) :
    s.clone.Mallocs (fun _ ↦ True) (Built fun t ↦ t.Good ∧ t.ranges = s.ranges) := by
  refine (clone_spec h).mono fun r hr ↦ ?_
  rcases hr with ⟨rfl, -⟩ | ⟨t, rfl, hgood, -, hranges⟩
  · exact .inr ⟨nofun, rfl⟩
  · exact .inl ⟨rfl, t, rfl, hgood, by rw [hranges, coalesceRanges_eq h.coalesced]⟩

namespace Space

variable {μ : Mode} {x : Multiset Handle} {i : SpaceId} {c child parent : Space} {t : PageTable}
  {v : Vma} {pte : Pte} {s : Sys} {f : Vma → Pte → Pte} {l : List (ℕ × Pte)}

/-! ## The entries of parent and child -/

/-- The entry that the child gets. -/
def childPte (v : Vma) (pte : Pte) : Pte := mappedPte pte.frame v.prot (forkFlags v pte.flags)

/-- The entry that the parent keeps. -/
def parentPte (v : Vma) (pte : Pte) : Pte :=
  revised pte pte.frame v.prot (forkCommitFlags v).1 (forkCommitFlags v).2

/-- Every entry made into another one, which depends on its mapping. -/
noncomputable def forkEntries (f : Vma → Pte → Pte) (c : Space) (p : ℕ) : Option Pte :=
  (c.pageTable.pte p).bind fun pte ↦ (c.vmaSnapshot.lookup (p * pageSize)).map fun v ↦ f v pte

theorem childPte_unlocked (v : Vma) (pte : Pte) : (childPte v pte).flags.locked = false := by
  simp only [childPte, mappedPte, forkFlags]
  split_ifs <;> rfl

theorem childPte_ok (v : Vma) (pte : Pte) : PteOk v (childPte v pte) := by
  refine ⟨rfl, rfl, ?_, ?_⟩
  all_goals
    simp only [childPte, mappedPte, forkFlags]
    by_cases hshared : v.shared = true
    · simp [hshared]
    · by_cases hwritable : v.maxProt.writable = true
      · simp [hshared, hwritable]
      · simp [hshared, hwritable]

theorem parentPte_ok (h : PteOk v pte) : PteOk v (parentPte v pte) := by
  have hpresent := h.present
  refine ⟨?_, rfl, ?_, ?_⟩
  all_goals
    simp only [parentPte, revised, forkCommitFlags, PteFlags.update]
    by_cases hshared : v.shared = true
    · simp [hshared, hpresent]
    · by_cases hwritable : v.maxProt.writable = true
      · simp [hshared, hwritable, hpresent]
      · simp [hshared, hwritable, hpresent]

theorem Wf.forkEntries (h : c.Wf) {p : ℕ} (hp : c.pageTable.pte p = some pte) :
    ∃ v, c.vmaSnapshot.lookup (p * pageSize) = some v ∧ PteOk v pte ∧
      forkEntries f c p = some (f v pte) := by
  obtain ⟨v, hv, hok⟩ := h.entry p pte hp
  refine ⟨v, hv, hok, ?_⟩
  rw [Space.forkEntries, hp, hv]
  rfl

theorem forkEntries_none {p : ℕ} (hp : c.pageTable.pte p = none) : forkEntries f c p = none := by
  rw [forkEntries, hp]
  rfl

theorem Wf.fits_forkEntries (h : c.Wf) (hf : ∀ v pte, PteOk v pte → PteOk v (f v pte)) :
    c.Fits (Space.forkEntries f c) := by
  intro p pte hp
  cases hold : c.pageTable.pte p with
  | none =>
    rw [forkEntries_none hold] at hp
    cases hp
  | some old =>
    obtain ⟨v, hv, hok, heq⟩ := h.forkEntries (f := f) hold
    rw [hp] at heq
    exact ⟨v, hv, by rw [Option.some.inj heq]; exact hf v old hok⟩

/-- The entries while the pages of `l` are still as in `g`. -/
noncomputable def pending (f : Vma → Pte → Pte) (c : Space) (g : ℕ → Option Pte)
    (l : List (ℕ × Pte)) (p : ℕ) : Option Pte :=
  if p ∈ l.map Prod.fst then g p else forkEntries f c p

theorem pending_cons {g : ℕ → Option Pte} {e : ℕ × Pte} (hnodup : e.1 ∉ l.map Prod.fst)
    (hv : c.vmaSnapshot.lookup (e.1 * pageSize) = some v) (he : c.pageTable.pte e.1 = some e.2)
    (p : ℕ) : Function.update (pending f c g (e :: l)) e.1 (some (f v e.2)) p =
      pending f c g l p := by
  by_cases hp : p = e.1
  · subst hp
    rw [Function.update_self, pending, if_neg hnodup, forkEntries, he, hv]
    rfl
  · rw [Function.update_of_ne hp, pending, pending, List.map_cons]
    exact if_congr (by simp [hp]) rfl rfl

/-- A table for the child of a space. -/
structure ForkTable (c : Space) (t : PageTable) : Prop where
  good : ∃ m, t.Represents m
  fits : c.Fits t.pte
  unlocked : ∀ p pte, t.pte p = some pte → pte.flags.locked = false

theorem ForkTable.lockedResident (h : ForkTable c t) (bad : Set ℕ) : t.LockedResident μ s bad := by
  intro _ p pte hp hl
  rw [h.unlocked p pte hp] at hl
  cases hl

theorem Wf.forkTable (h : c.Wf) (ht : t.Has (pending childPte c (fun _ ↦ none) l)) :
    ForkTable c t := by
  have hpte : ∀ p pte, t.pte p = some pte → Space.forkEntries childPte c p = some pte := by
    intro p pte hp
    rw [ht.pte, pending] at hp
    split_ifs at hp
    exact hp
  refine ⟨ht.good, fun p pte hp ↦ ?_, fun p pte hp ↦ ?_⟩
  · exact h.fits_forkEntries (fun v pte _ ↦ childPte_ok v pte) p pte (hpte p pte hp)
  · have hentry := hpte p pte hp
    rw [Space.forkEntries, Option.bind_eq_some_iff] at hentry
    obtain ⟨old, -, hmap⟩ := hentry
    obtain ⟨v, -, rfl⟩ := Option.map_eq_some_iff.1 hmap
    exact childPte_unlocked v old

/-! ## The passes -/

theorem forkCopyPtes_spec (h : c.Wf) (l : List (ℕ × Pte))
    (hl : ∀ e ∈ l, c.pageTable.pte e.1 = some e.2) (hnodup : (l.map Prod.fst).Nodup)
    (ht : t.Has (pending childPte c (fun _ ↦ none) l)) :
    Triple μ c.sites t.sites (fun _ ↦ True) (forkCopyPtes c.vmaSnapshot l t) (fun r ↦ r.2.sites)
      fun r _ ↦ ForkTable c r.2 ∧ (r.1 = .ok → r.2.Has (Space.forkEntries childPte c)) := by
  induction l generalizing t with
  | nil =>
    refine .pure rfl fun _ _ ↦ ⟨h.forkTable ht, fun _ ↦ ht.congr fun p ↦ ?_⟩
    simp [pending]
  | cons e rest ih =>
    intro s x w hK hat _
    rw [List.forall_mem_cons] at hl
    rw [List.map_cons, List.nodup_cons] at hnodup
    obtain ⟨v, hv, -⟩ := h.entry e.1 e.2 hl.1
    rw [forkCopyPtes, hv]
    have hunlocked : ¬(forkFlags v e.2.flags).locked = true := by
      have hfree := childPte_unlocked v e.2
      rw [childPte, mappedPte] at hfree
      simpa using hfree
    have href : ref e.2.frame ∈ c.sites + t.sites :=
      Multiset.mem_of_le ((ref_le hl.1).trans le_self_add) (Multiset.mem_singleton_self _)
    have htable := h.forkTable ht
    refine (map_at (ν := μ) ∅ ht href fun _ hl ↦ absurd hl hunlocked).seq (F := 0) hat
      (add_zero _).symm (hK.trans (le_add_left le_rfl))
      ⟨htable.lockedResident ∅, fun _ hl ↦ absurd hl hunlocked⟩ ?_
    rintro ⟨status, t'⟩ w1 hat1 - ⟨-, hmapped⟩
    rw [add_zero] at hat1
    dsimp only at hat1 ⊢
    rcases hmapped with ⟨hok, -, -, -, hhas⟩ | ⟨hbad, hhas⟩
    · dsimp only at hok hhas
      rw [Nat.mul_div_cancel _ (by decide)] at hhas
      rw [if_neg (not_not.2 hok)]
      exact ih hl.2 hnodup.2 (hhas.congr (pending_cons hnodup.1 hv hl.1)) s x w1 hK hat1 trivial
    · rw [if_pos hbad]
      exact ⟨hat1, h.forkTable hhas, fun hok ↦ absurd hok hbad⟩

theorem forkCommitParentCow_spec (h : c.Wf) (l : List (ℕ × Pte))
    (hl : ∀ e ∈ l, c.pageTable.pte e.1 = some e.2) (hnodup : (l.map Prod.fst).Nodup)
    (ht : t.Has (pending parentPte c c.pageTable.pte l)) :
    Triple μ 0 t.sites (fun s ↦ t.LockedResident μ s ∅) (forkCommitParentCow c.vmaSnapshot l t)
      (fun r ↦ r.2.sites)
      fun r s ↦ r.1 = .ok ∧ r.2.Has (Space.forkEntries parentPte c) ∧ r.2.LockedResident μ s ∅ := by
  induction l generalizing t with
  | nil =>
    refine .pure rfl fun _ hlocked ↦ ⟨rfl, ht.congr fun p ↦ ?_, hlocked⟩
    simp [pending]
  | cons e rest ih =>
    intro s x w hK hat hlocked
    rw [List.forall_mem_cons] at hl
    rw [List.map_cons, List.nodup_cons] at hnodup
    obtain ⟨v, hv, -⟩ := h.entry e.1 e.2 hl.1
    have hself : pending parentPte c c.pageTable.pte (e :: rest) e.1 = some e.2 := by
      rw [pending, if_pos (by simp), hl.1]
    have hflags : (forkCommitFlags v).1.present = false ∧ (forkCommitFlags v).2.present = false ∧
        (forkCommitFlags v).1.meets (forkCommitFlags v).2 = false ∧
        (forkCommitFlags v).1.locked = false := by
      rw [forkCommitFlags]
      split_ifs <;> exact ⟨rfl, rfl, rfl, rfl⟩
    rw [forkCommitParentCow, hv]
    refine (updateAttributes_at ht hself hflags.1 hflags.2.1 hflags.2.2.1 fun hl ↦ ?_).first hat
      hlocked ?_
    · rw [hflags.2.2.2] at hl
      cases hl
    rintro ⟨status, t'⟩ w1 hat1 - ⟨hlocked1, hok, hhas⟩
    dsimp only at hok hhas hlocked1 hat1 ⊢
    rw [if_neg (not_not.2 hok)]
    refine ih hl.2 hnodup.2 (hhas.congr ?_) s x w1 hK (hat1.congr (add_zero _)) hlocked1
    exact pending_cons (f := parentPte) hnodup.1 hv hl.1

/-- What the two passes leave: `t` for the parent and `r.2.2` for the child. -/
def ForkedTables (μ : Mode) (i : SpaceId) (T : Tlb) (c : Space) (r : Status × PageTable × PageTable)
    (s : Sys) : Prop :=
  ForkTable c r.2.2 ∧ TableOk μ i ∅ r.2.1 s ∧
    (r.1 = .ok ∧ r.2.1.Has (Space.forkEntries parentPte c) ∧
        r.2.2.Has (Space.forkEntries childPte c) ∨
      r.1 ≠ .ok ∧ r.2.1 = c.pageTable ∧ s.tlb i = T)

theorem forkTables_spec {T : Tlb} {p : Code (Status × PageTable × PageTable)}
    (hp : forkTables i c = p) :
    Triple μ 0 ({lock (.space i)} + c.sites) (fun s ↦ Sound μ i ∅ c s ∧ s.tlb i = T) p
      (fun r ↦ {lock (.space i)} + (c.setTable r.2.1).sites + r.2.2.sites)
      (ForkedTables μ i T c) := by
  intro s x w hK hat ⟨h, htlb⟩
  obtain ⟨m, hm⟩ := h.wf.table
  have hmem : ∀ e ∈ c.pageTable.entries, c.pageTable.pte e.1 = some e.2 := fun e he ↦ by
    rw [hm.pte, hm.mem_entries.1 he]
  have hall : ∀ {p pte}, c.pageTable.pte p = some pte → (p, pte) ∈ c.pageTable.entries := by
    intro p pte hp
    rw [hm.mem_entries, ← hm.pte, hp]
  have hnodup : (c.pageTable.entries.map Prod.fst).Nodup := by
    rw [List.nodup_iff_pairwise_ne, List.pairwise_map]
    exact (Radix.entries_sorted c.pageTable.root 0).imp fun hlt ↦ hlt.ne
  rw [← hp]
  unfold forkTables
  generalize c.pageTable.entries = l at hmem hall hnodup ⊢
  have hchild : PageTable.empty.Has (pending childPte c (fun _ ↦ none) l) := by
    refine ⟨⟨∅, represents_empty⟩, fun p ↦ ?_⟩
    rw [pte_empty, pending]
    split_ifs with hin
    · rfl
    · refine (forkEntries_none ?_).symm
      by_contra hne
      obtain ⟨pte, hpte⟩ := Option.ne_none_iff_exists'.1 hne
      exact hin (List.mem_map.2 ⟨_, hall hpte, rfl⟩)
  have hparent : c.pageTable.Has (pending parentPte c c.pageTable.pte l) := by
    refine h.wf.has.congr fun p ↦ ?_
    rw [pending]
    split_ifs with hin
    · rfl
    · by_cases hne : c.pageTable.pte p = none
      · rw [hne, forkEntries_none hne]
      · obtain ⟨pte, hpte⟩ := Option.ne_none_iff_exists'.1 hne
        exact absurd (List.mem_map.2 ⟨_, hall hpte, rfl⟩) hin
  refine (forkCopyPtes_spec h.wf l hmem hnodup hchild).seq (F := {lock (.space i)} + c.sites) hat
    (by rw [sites_empty, zero_add]) ((le_add_left le_rfl).trans le_self_add) trivial ?_
  rintro ⟨status, child⟩ w1 hat1 hk1 ⟨htable, hhas⟩
  have h1 := h.keeps_sites hk1 le_rfl
  dsimp only at hat1 htable hhas ⊢
  by_cases hstatus : status ≠ .ok
  · rw [if_pos hstatus]
    refine ⟨hat1.congr (add_comm _ _), htable, h1.tableOk, .inr ⟨hstatus, rfl, ?_⟩⟩
    rw [hk1.tlb i (by simp), htlb]
  rw [if_neg hstatus]
  refine (forkCommitParentCow_spec h.wf l hmem hnodup hparent).seq
    (F := {lock (.space i)} + bindingSites c.bindings + child.sites) hat1
    (by rw [sites_eq]; ac_rfl) zero_le h1.locked ?_
  rintro ⟨status, t⟩ w2 hat2 hk2 ⟨hok, hhas2, hlocked2⟩
  dsimp only at hok hhas2 hlocked2 hat2 ⊢
  rw [if_neg (not_not.2 hok)]
  refine Tlb.flush_spec.seq (F := t.sites + bindingSites c.bindings + child.sites) hat2 (by ac_rfl)
    zero_le (h1.tlb.keeps hk2 (by simp)) fun _ w3 hat3 hk3 htlb3 ↦ ?_
  refine ⟨hat3.congr ?_, htable, ⟨htlb3.mono fun _ hfalse ↦ hfalse.elim, hlocked2.keeps hk3 ?_⟩,
    .inl ⟨rfl, hhas2, hhas (not_not.1 hstatus)⟩⟩
  · change _ = _ + (t.sites + bindingSites c.bindings) + child.sites
    ac_rfl
  · exact (le_self_add.trans le_self_add).trans le_self_add

/-! ## The call -/

/-- The contents of a child that nobody has seen yet. -/
structure ChildOk (μ : Mode) (child : Space) (s : Sys) : Prop where
  wf : child.Wf
  bound : child.Bound s
  locked : child.pageTable.LockedResident μ s ∅

theorem childOk_new : ChildOk μ new s := ⟨wf_new, bound_of_empty rfl, lockedResident_empty⟩

theorem ChildOk.keeps {s' : Sys} (h : ChildOk μ child s) (hx : child.sites ≤ x)
    (hk : Keeps x s s') : ChildOk μ child s' :=
  ⟨h.wf, h.bound.keeps hk, h.locked.keeps hk (child.table_le.trans hx)⟩

/-- A child and its parent after a successful fork of `c`. -/
structure Forked (c child parent : Space) : Prop where
  ranges : child.vmaSnapshot.ranges = c.vmaSnapshot.ranges
  bindings : child.bindings = c.bindings
  cookie : child.nextMappingCookie = c.nextMappingCookie
  base : child.mmapBase = c.mmapBase
  childEntries : ∀ p, child.pageTable.pte p = Space.forkEntries childPte c p
  parentEntries : ∀ p, parent.pageTable.pte p = Space.forkEntries parentPte c p
  rest : c.setTable parent.pageTable = parent

theorem childOk_forkChild {snapshot : VmaSnapshot} (h : c.Wf) (hb : c.Bound s)
    (hgood : snapshot.Good) (hranges : snapshot.ranges = c.vmaSnapshot.ranges)
    (ht : ForkTable c t) : ChildOk μ (c.forkChild snapshot c.bindings t) s := by
  have hlookup : ∀ a v, snapshot.lookup a = some v ↔ c.vmaSnapshot.lookup a = some v := by
    intro a v
    rw [lookup_eq_some hgood, lookup_eq_some h.snapshot, hranges]
  refine ⟨⟨hgood, ht.good, h.cookies, h.nextCookie, h.base, fun p pte hp ↦ ?_⟩, fun v hv ↦ ?_,
    ht.lockedResident ∅⟩
  · obtain ⟨v, hv, hok⟩ := ht.fits p pte hp
    exact ⟨v, (hlookup _ v).2 hv, hok⟩
  · exact hb v (by rw [← hranges]; exact hv)

theorem forkLocked_spec {T : Tlb} :
    Triple μ 0 ({lock (.space i)} + c.sites) (fun s ↦ Sound μ i ∅ c s ∧ s.tlb i = T)
      (forkLocked i c) (fun r ↦ {lock (.space i)} + r.2.sites + r.1.2.sites)
      fun r s ↦ Sound μ i ∅ r.2 s ∧ ChildOk μ r.1.2 s ∧
        (r.1.1 = .ok ∧ Forked c r.1.2 r.2 ∨ r.1.1 ≠ .ok ∧ r.2 = c ∧ s.tlb i = T) := by
  intro s x w hK hat ⟨h, htlb⟩
  unfold forkLocked
  refine (clone_built h.wf.snapshot).triple.aside hat trivial ?_
  rintro ⟨status, snapshot⟩ w1 hat1 hk1 hbuilt
  rw [zero_add] at hat1
  have h1 := h.keeps_sites hk1 le_rfl
  have htlb1 : w1.sys.tlb i = T := by rw [hk1.tlb i (by simp), htlb]
  have hnew : {lock (.space i)} + c.sites = {lock (.space i)} + c.sites + new.sites := by
    rw [sites_new, add_zero]
  rcases hbuilt with ⟨-, snapshot, rfl, hgood, hranges⟩ | ⟨hbad, rfl⟩
  swap
  · exact ⟨hat1.congr hnew, h1, childOk_new, .inr ⟨hbad, rfl, htlb1⟩⟩
  dsimp only
  refine (Binding.listClone_spec c.bindings).seq hat1 (zero_add _).symm ?_ trivial ?_
  · exact ((le_add_left le_rfl : bindingSites c.bindings ≤ c.sites).trans
      (le_add_left le_rfl)).trans le_self_add
  rintro ⟨status, bindings⟩ w2 hat2 hk2 hclone
  have h2 := h1.keeps_sites hk2 le_rfl
  have htlb2 : w2.sys.tlb i = T := by rw [hk2.tlb i (by simp), htlb1]
  dsimp only at hat2 hclone ⊢
  rcases hclone with ⟨hok, rfl⟩ | ⟨hbad, rfl⟩
  swap
  · rw [if_pos hbad]
    rw [bindingSites_nil, zero_add] at hat2
    exact ⟨hat2.congr hnew, h2, childOk_new, .inr ⟨hbad, rfl, htlb2⟩⟩
  rw [if_neg (not_not.2 hok)]
  generalize hp : forkTables i c = p
  refine (forkTables_spec hp).seq hat2 (add_comm _ _) zero_le ⟨h2, htlb2⟩ ?_
  rintro ⟨status, t, child⟩ w3 hat3 hk3 ⟨htable, hok3, hout⟩
  have hbound := h2.bound.keeps hk3
  dsimp only at hat3 htable hok3 hout ⊢
  refine ⟨hat3.congr ?_, ?_, childOk_forkChild h.wf hbound hgood hranges htable, ?_⟩
  · rw [sites_eq (c.forkChild snapshot c.bindings child)]
    change _ = _ + _ + (child.sites + bindingSites c.bindings)
    ac_rfl
  · rcases hout with ⟨-, hhas, -⟩ | ⟨-, rfl, -⟩
    · exact .setTable h.wf hbound hhas (h.wf.fits_forkEntries fun v pte hpte ↦ parentPte_ok hpte)
        hok3
    · exact .same h.wf hbound h.wf.has hok3.1 hok3.2
  · rcases hout with ⟨hok, hhas, hchild⟩ | ⟨hbad, rfl, htlb3⟩
    · exact .inl ⟨hok, hranges, rfl, rfl, rfl, hchild.pte, hhas.pte, rfl⟩
    · exact .inr ⟨hbad, rfl, htlb3⟩

theorem ChildOk.sound {child : SpaceId} {contents : Space} (h : ChildOk μ contents s)
    (htlb : Tlb.All (Agrees new.pageTable) child s) : Sound μ child ∅ contents s := by
  refine ⟨h.wf, h.bound, htlb.mono fun e he ↦ ?_, h.locked⟩
  rw [Agrees, show new.pageTable = PageTable.empty from rfl, pte_empty] at he
  cases he

theorem sites_unbound (c : Space) : c.sites = bindingSites c.bindings + c.unbound.sites := by
  rw [sites_eq, sites_eq, unbound, bindingSites_nil, add_zero, add_comm]

theorem Wf.unbound (h : c.Wf) : c.unbound.Wf :=
  ⟨h.snapshot, h.table, List.forall_mem_nil _, h.nextCookie, h.base, h.entry⟩

theorem fork_spec :
    Spends μ 0 0 (fun s ↦ i < s.nextSpace) (fork i) := by
  intro s x w hK hat hi
  refine createLocked_spec.next hat trivial ?_
  rintro ⟨status, made⟩ w1 hat1 hk1 hmade
  cases made with
  | none => exact ⟨hat1, trivial⟩
  | some child =>
  have hnew := hmade child rfl
  dsimp only [madeSites] at hat1 ⊢
  refine lockBrk_spec.seq (F := {lock (.space child)} + {lock (.brk child)}) hat1 (by simp)
    zero_le (hi.trans_le hk1.nextSpace) fun brk w2 hat2 hk2 _ ↦ ?_
  have htlb2 := hnew.tlb.keeps hk2 (by simp)
  have hlocked : Triple μ 0 0 (fun s ↦ i < s.nextSpace ∧ True) (withLock i (.busy, .new)
      (forkLocked i)) (fun r ↦ r.2.sites) fun r s ↦ ChildOk μ r.2 s := by
    refine withLock_spec sites_new (fun _ _ h ↦ h) (fun _ _ ↦ childOk_new)
      (fun hx hk h ↦ h.keeps hx hk) fun c _ ↦ ?_
    intro s x w hK hat ⟨h, _⟩
    refine forkLocked_spec.tail (F := 0) hat rfl zero_le ⟨h, rfl⟩
      fun r w' hat' _ ⟨hs, hchild, _⟩ ↦ ?_
    exact ⟨hat'.congr (add_zero _), hs, hchild⟩
  refine hlocked.aside hat2
    ⟨(hi.trans_le hk1.nextSpace).trans_le hk2.nextSpace, trivial⟩ ?_
  rintro ⟨status, contents⟩ w3 hat3 hk3 hchild
  have htlb3 := htlb2.keeps hk3 (by simp)
  dsimp only at hat3 hchild ⊢
  refine (unlockBrk_spec brk).seq
    (F := contents.sites + {lock (.space child)} + {lock (.brk child)}) hat3 (by ac_rfl) zero_le
    trivial fun _ w4 hat4 hk4 _ ↦ ?_
  have htlb4 := htlb3.keeps hk4 (by simp)
  have hchild4 := hchild.keeps ((le_self_add.trans le_self_add).trans le_self_add) hk4
  rw [zero_add] at hat4
  by_cases hstatus : status ≠ .ok
  · rw [if_pos hstatus]
    refine (Binding.listDestroy_spec contents.bindings).seq
      (F := {lock (.brk child)} + ({lock (.space child)} + contents.unbound.sites)) hat4
      (by rw [sites_unbound]; ac_rfl) zero_le trivial fun _ w5 hat5 _ _ ↦ ?_
    refine (unlockBrk_spec _).seq (F := {lock (.space child)} + contents.unbound.sites) hat5
      (zero_add _) zero_le trivial fun _ w6 hat6 _ _ ↦ ?_
    refine destroyLocked_spec.seq (F := 0) hat6 (by simp) zero_le hchild4.wf.unbound
      fun _ w7 hat7 _ _ ↦ ⟨hat7, trivial⟩
  · rw [if_neg hstatus]
    refine unlock_spec.seq (F := {lock (.brk child)}) hat4 (by ac_rfl) zero_le
      (hchild4.sound htlb4) fun _ w5 hat5 _ _ ↦ ?_
    refine (unlockBrk_spec _).seq (F := 0) hat5 (by simp) zero_le trivial
      fun _ w6 hat6 _ _ ↦ ⟨hat6, trivial⟩

end Space

end MiniMM
