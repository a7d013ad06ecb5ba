import MiniMM.Spec.Place

/-!
# Specifications of the calls that change mappings

`minimm_munmap`, `minimm_mprotect`, `minimm_mmap` and `minimm_mapping_extend_heap`: what each leaves
of the mappings and entries of its space.
-/

namespace MiniMM

open Handle Vma PageTable VmaSnapshot

namespace VmaSnapshot

variable {s t u : VmaSnapshot} {v : Vma} {start stop : ℕ}

/-- A new snapshot of which `P` holds, or an error. -/
def Built (P : VmaSnapshot → Prop) (r : Status × Option VmaSnapshot) : Prop :=
  (r.1 = .ok ∧ ∃ t, r.2 = some t ∧ P t) ∨ (r.1 ≠ .ok ∧ r.2 = none)

theorem Outcome.built {may : Bool → Prop} {view : ℕ → Option View} {P : VmaSnapshot → Prop}
    {r : Status × Option VmaSnapshot} (h : Outcome may s view r)
    (hP : ∀ t, t.Good → (∀ a, viewAt t.ranges a = view a) → P t) : Built P r := by
  cases h with
  | outOfMemory => exact .inr ⟨nofun, rfl⟩
  | noSpace => exact .inr ⟨nofun, rfl⟩
  | ok hgood _ hview => exact .inl ⟨rfl, _, rfl, hP _ hgood hview⟩

theorem insert_built (h : s.Good) (v : Vma) :
    (s.insert v).Mallocs (fun _ ↦ True) (Built (Inserted s v)) := by
  refine (insert_outcome h v).mono fun r hr ↦ ?_
  rcases hr with ⟨-, rfl⟩ | ⟨-, -, rfl⟩ | ⟨hv, hfree, hout⟩
  · exact .inr ⟨nofun, rfl⟩
  · exact .inr ⟨nofun, rfl⟩
  · have hvalid := isValid_iff.1 hv
    refine hout.built fun t hgood hview ↦ ⟨hgood, hvalid, hview, fun a ha ↦ ?_⟩
    by_contra hne
    obtain ⟨x, hx⟩ := Option.ne_none_iff_exists'.1 hne
    obtain ⟨w, hw, hwa, -⟩ := h.ordered.viewAt_iff.1 hx
    rw [contains_iff] at ha hwa
    exact hfree ((overlaps_iff h.ordered hvalid).1 ⟨w, hw, by omega, by omega⟩)

theorem remove_built (h : s.Good) (start stop : ℕ) :
    (s.remove start stop).Mallocs (fun _ ↦ True)
      (Built fun t ↦ Removed s start stop t ∧ pageRangeIsValid start stop = true) := by
  refine (remove_outcome h start stop).mono fun r hr ↦ ?_
  rcases hr with ⟨-, rfl⟩ | ⟨hvalid, hout⟩
  · exact .inr ⟨nofun, rfl⟩
  · exact hout.built fun t hgood hview ↦ ⟨⟨hgood, hview⟩, hvalid⟩

/-- `t` is `s` with a range in the place of what was there. -/
structure Laid (s : VmaSnapshot) (v : Vma) (t : VmaSnapshot) : Prop where
  good : t.Good
  valid : v.Valid
  view : ∀ a, viewAt t.ranges a = if v.contains a then some (v.view a) else viewAt s.ranges a

theorem Inserted.laid (h : Inserted s v t) : Laid s v t := ⟨h.good, h.valid, h.view⟩

theorem Laid.of_removed (h : Removed s v.start v.stop t) (hv : Inserted t v u) : Laid s v u := by
  refine ⟨hv.good, hv.valid, fun a ↦ ?_⟩
  rw [hv.view, h.view]
  by_cases ha : v.contains a = true
  · rw [if_pos ha, if_pos ha]
  · rw [if_neg ha, if_neg ha, if_neg fun hin ↦ ha (contains_iff.2 hin)]

theorem replaceRange_built (h : s.Good) (v : Vma) :
    (Space.replaceRange s v).Mallocs (fun _ ↦ True) (Built (Laid s v)) := by
  refine (remove_built h v.start v.stop).bind ?_
  rintro ⟨status, without⟩ (⟨-, without, rfl, hremoved, -⟩ | ⟨hbad, rfl⟩)
  · refine (insert_built hremoved.good v).mono fun r hr ↦ hr.imp_left ?_
    rintro ⟨hok, t, ht, hins⟩
    exact ⟨hok, t, ht, .of_removed hremoved hins⟩
  · exact .inr ⟨hbad, rfl⟩

/-- What `minimm_vma_snapshot_protect` makes. -/
structure Reprotected (s : VmaSnapshot) (start stop : ℕ) (protection : Prot) (t : VmaSnapshot) :
    Prop where
  good : t.Good
  range : pageRangeIsValid start stop = true
  allowed : s.AllowsPages start stop protection
  view : ∀ a, viewAt t.ranges a = (viewAt s.ranges a).map fun x ↦
    if start ≤ a ∧ a < stop then { x with prot := protection } else x

theorem protect_built (h : s.Good) (start stop : ℕ) (protection : Prot) :
    (s.protect start stop protection).Mallocs (fun _ ↦ True)
      (Built (Reprotected s start stop protection)) := by
  refine (protect_outcome h start stop protection).mono fun r hr ↦ ?_
  rcases hr with ⟨-, rfl⟩ | ⟨-, -, rfl | rfl⟩ | ⟨hvalid, hallowed, hout⟩
  · exact .inr ⟨nofun, rfl⟩
  · exact .inr ⟨nofun, rfl⟩
  · exact .inr ⟨nofun, rfl⟩
  · exact hout.built fun t hgood hview ↦
      ⟨hgood, (Bool.and_eq_true_iff.1 hvalid).1, hallowed, hview⟩

end VmaSnapshot

namespace Space

variable {μ : Mode} {K x : Multiset Handle} {i : SpaceId} {bad : Set ℕ} {c c' : Space} {s : Sys}
  {g : ℕ → Option Pte} {t : PageTable} {start stop : ℕ} {next : VmaSnapshot}

/-! ## Unmapping -/

/-- What `minimm_munmap` leaves of a space. -/
structure Unmapped (start stop : ℕ) (c c' : Space) : Prop where
  snapshot : Removed c.vmaSnapshot start stop c'.vmaSnapshot
  range : pageRangeIsValid start stop = true
  entries : ∀ p, c'.pageTable.pte p = swept start stop (fun _ _ ↦ none) c.pageTable.pte p
  bindings : c'.bindings = (Binding.prune c.bindings c'.vmaSnapshot).1
  rest : { c with
    pageTable := c'.pageTable, vmaSnapshot := c'.vmaSnapshot, bindings := c'.bindings } = c'

/-- Entries outside an interval that is unmapped still lie in their mappings. -/
theorem Wf.removed (h : c.Wf) (hnext : Removed c.vmaSnapshot start stop next)
    (ht : t.Has (swept start stop (fun _ _ ↦ none) c.pageTable.pte)) :
    (Fits { c with vmaSnapshot := next } t.pte) := by
  refine (fits_iff (c := { c with vmaSnapshot := next }) hnext.good).2 fun p pte hp ↦ ?_
  rw [ht.pte] at hp
  by_cases hin : Within start stop p
  · rw [swept_of_within hin, Option.bind_fun_none] at hp
    cases hp
  · rw [swept_of_not hin] at hp
    rw [hnext.view, if_neg (by exact hin)]
    exact h.view hp

theorem bound_prune {bindings : List Binding} (hgood : next.Good)
    (hbound : ∀ a x, viewAt next.ranges a = some x → ViewBound s bindings x)
    (hsnapshot : c.vmaSnapshot = next) (hbindings : c.bindings = (Binding.prune bindings next).1) :
    c.Bound s := by
  subst hsnapshot
  refine (bound_iff hgood).2 fun a x hx ↦ ?_
  obtain ⟨hne, b, hb, hlt, hkind⟩ := hbound a x hx
  refine ⟨hne, b, ?_, hlt, hkind⟩
  rw [hbindings, Binding.find_prune, hb]
  exact (containsCookie_iff hgood).2 ⟨hne, a, x, hx, rfl⟩

theorem munmapLocked_spec :
    Triple μ 0 ({lock (.space i)} + c.sites) (Sound μ i ∅ c) (munmapLocked i start stop c)
      (fun r ↦ {lock (.space i)} + r.2.sites + bindingSites r.1.2)
      fun r s ↦ Sound μ i ∅ r.2 s ∧ (r.1.1 = .ok ∧ Unmapped start stop c r.2 ∨
        r.1.1 ≠ .ok ∧ r.1.2 = [] ∧ r.2 = c) := by
  intro s x w hK hat h
  refine (remove_built h.wf.snapshot start stop).triple.aside hat trivial ?_
  rintro ⟨status, _ | next⟩ w1 hat1 hk1 hbuilt
  · have hsound := h.keeps hk1 ((add_le_add_right c.table_le _).trans le_self_add)
    rcases hbuilt with ⟨-, _, hnone, -⟩ | ⟨hbad, -⟩
    · cases hnone
    · exact ⟨hat1.congr (by rw [zero_add]; exact (add_zero _).symm), hsound, .inr ⟨hbad, rfl, rfl⟩⟩
  rcases hbuilt with ⟨-, _, hsome, hremoved, hrange⟩ | ⟨-, hnone⟩
  swap
  · cases hnone
  cases hsome
  obtain ⟨hlt, hlimit, hstart, hstop⟩ := pageRangeIsValid_iff.1 hrange
  have h1 := h.keeps hk1 ((add_le_add_right c.table_le _).trans le_self_add)
  refine (unmapPagesLocked_spec h.wf.has hlt.le hlimit hstart hstop).seq
    (F := bindingSites c.bindings) hat1 ?_ zero_le ⟨h1.tlb, h1.locked⟩ ?_
  · rw [zero_add, sites_eq, add_assoc]
  intro t w2 hat2 hk2 ⟨hhas, htlb, hlocked⟩
  refine (publishLocked_spec next).aside hat2 trivial ?_
  rintro _ w3 hat3 hk3 rfl
  rw [zero_add] at hat3
  have hle : {lock (.space i)} + t.sites ≤
      {lock (.space i)} + t.sites + bindingSites c.bindings + x :=
    le_self_add.trans le_self_add
  refine ⟨hat3.congr ?_, ⟨?_, ?_, ?_, ?_⟩, .inl ⟨rfl, ⟨hremoved, hrange, hhas.pte, rfl, rfl⟩⟩⟩
  · dsimp only
    rw [sites_eq, Binding.sites_prune _ next]
    change _ = _ + (t.sites + _) + _
    ac_rfl
  · have hfits := h.wf.removed hremoved hhas
    exact ⟨hremoved.good, hhas.good, fun b hb ↦ h.wf.cookies b (Binding.mem_prune hb),
      h.wf.nextCookie, h.wf.base, hfits⟩
  · refine bound_prune hremoved.good (fun a x hx ↦ ?_) rfl rfl
    have hb := (h1.bound.keeps hk2).keeps hk3
    exact (bound_iff h.wf.snapshot).1 hb a x (hremoved.old hx)
  · exact htlb.keeps hk3 (Multiset.mem_of_le hle (by simp))
  · exact hlocked.keeps hk3 ((le_add_left le_rfl).trans hle)

theorem withLock_destroy_spec {α β : Type} {busy : α} {body : Space → Code (α × Space)}
    {H : Multiset Handle} {P : Sys → Prop} (removed : α → List Binding) (result : α → β)
    (hbusy : bindingSites (removed busy) = H)
    (hP : ∀ {x s s'}, H ≤ x → Keeps x s s' → P s → P s')
    (hbody : ∀ c, c.closing = false →
      Triple μ K ({lock (.space i)} + c.sites + H) (fun s ↦ Sound μ i ∅ c s ∧ P s) (body c)
        (fun r ↦ {lock (.space i)} + r.2.sites + bindingSites (removed r.1))
        fun r s ↦ Sound μ i ∅ r.2 s) :
    Spends μ K H (fun s ↦ i < s.nextSpace ∧ P s) (do
        let r ← withLock i busy body
        Binding.listDestroy (removed r)
        pure (result r)) := by
  intro s x w hK hat h
  refine (withLock_spec (G := fun r ↦ bindingSites (removed r)) (Q := fun _ _ ↦ True) hbusy hP
    (fun _ _ ↦ trivial) (fun _ _ _ ↦ trivial) fun c hc ↦ ?_).seq (F := 0) hat (add_zero _).symm
    (by simpa using hK) h fun r w1 hat1 _ _ ↦ ?_
  · exact (hbody c hc).post fun _ _ h ↦ ⟨h, trivial⟩
  · refine (Binding.listDestroy_spec (removed r)).seq hat1 rfl zero_le trivial
      fun _ w2 hat2 _ _ ↦ ?_
    exact ⟨hat2, trivial⟩

theorem withLock_destroy_plain {α β : Type} {body : Space → Code (α × Space)}
    (removed : α → List Binding) (result : α → β) (busy : α) (hbusy : removed busy = [])
    (hbody : ∀ c, c.closing = false →
      Triple μ K ({lock (.space i)} + c.sites) (Sound μ i ∅ c) (body c)
        (fun r ↦ {lock (.space i)} + r.2.sites + bindingSites (removed r.1))
        fun r s ↦ Sound μ i ∅ r.2 s) :
    Spends μ K 0 (fun s ↦ i < s.nextSpace) (do
        let r ← withLock i busy body
        Binding.listDestroy (removed r)
        pure (result r)) := by
  have hsites : bindingSites (removed busy) = 0 := by
    rw [hbusy]
    rfl
  refine (withLock_destroy_spec (P := fun _ ↦ True) removed result hsites (fun _ _ h ↦ h)
    fun c hc ↦ ?_).pre (fun _ h ↦ ⟨h, trivial⟩)
  rw [add_zero]
  exact (hbody c hc).pre (fun _ h ↦ h.1)

theorem munmap_spec (address length : ℕ) :
    Spends μ 0 0 (fun s ↦ i < s.nextSpace) (munmap i address length) := by
  unfold munmap
  split
  · exact .pure rfl fun _ _ ↦ trivial
  refine .guard fun _ ↦ ?_
  exact withLock_destroy_plain (fun r : Status × List Binding ↦ r.2) (fun r ↦ r.1)
    (.busy, []) rfl fun c _ ↦ munmapLocked_spec.post fun _ _ h ↦ h.1

/-! ## Protection -/

/-- What `minimm_mprotect` leaves of a space. -/
structure Guarded (start stop : ℕ) (protection : Prot) (c c' : Space) : Prop where
  snapshot : Reprotected c.vmaSnapshot start stop protection c'.vmaSnapshot
  entries : ∀ p, c'.pageTable.pte p = swept start stop
    (fun _ pte ↦ some (revised pte pte.frame protection {} {})) c.pageTable.pte p
  rest : { c with pageTable := c'.pageTable, vmaSnapshot := c'.vmaSnapshot } = c'

theorem update_nothing (flags : PteFlags) : flags.update {} {} = flags := by
  simp [PteFlags.update]

theorem Wf.reprotected {protection : Prot} (h : c.Wf)
    (hnext : Reprotected c.vmaSnapshot start stop protection next)
    (ht : t.Has (swept start stop
      (fun _ pte ↦ some (revised pte pte.frame protection {} {})) c.pageTable.pte)) :
    Fits { c with vmaSnapshot := next } t.pte := by
  refine (fits_iff (c := { c with vmaSnapshot := next }) hnext.good).2 fun p pte hp ↦ ?_
  rw [ht.pte] at hp
  by_cases hin : Within start stop p
  · rw [swept_of_within hin, Option.bind_eq_some_iff] at hp
    obtain ⟨old, hold, hnew⟩ := hp
    obtain ⟨x, hx, hok⟩ := h.view hold
    rw [hnext.view, hx]
    refine ⟨_, rfl, ?_⟩
    dsimp only
    rw [if_pos (by exact hin), ← Option.some.inj hnew]
    refine ⟨?_, ?_, ?_, ?_⟩ <;> simp only [revised, update_nothing]
    · exact hok.present
    · exact hok.shared
    · exact hok.cow
  · rw [swept_of_not hin] at hp
    obtain ⟨x, hx, hok⟩ := h.view hp
    rw [hnext.view, hx]
    refine ⟨_, rfl, ?_⟩
    dsimp only
    rwa [if_neg (by exact hin)]

theorem viewBound_reprotected {protection : Prot} {bindings : List Binding} {current : VmaSnapshot}
    (h : Reprotected current start stop protection next)
    (hbound : ∀ a x, viewAt current.ranges a = some x → ViewBound s bindings x) {a : ℕ} {x : View}
    (hx : viewAt next.ranges a = some x) : ViewBound s bindings x := by
  rw [h.view, Option.map_eq_some_iff] at hx
  obtain ⟨y, hy, rfl⟩ := hx
  have hb := hbound a y hy
  split_ifs
  · exact hb
  · exact hb

theorem mprotectLocked_spec (protection : Prot) :
    Works μ 0 i c (mprotectLocked i start stop protection c) fun r _ ↦
      r.1 = .ok ∧ Guarded start stop protection c r.2 ∨ r.1 ≠ .ok ∧ r.2 = c := by
  intro s x w hK hat h
  refine (protect_built h.wf.snapshot start stop protection).triple.aside hat trivial ?_
  rintro ⟨status, _ | next⟩ w1 hat1 hk1 hbuilt
  · have hsound := h.keeps hk1 ((add_le_add_right c.table_le _).trans le_self_add)
    rcases hbuilt with ⟨-, _, hnone, -⟩ | ⟨hbad, -⟩
    · cases hnone
    · exact ⟨hat1.congr (zero_add _), hsound, .inr ⟨hbad, rfl⟩⟩
  rcases hbuilt with ⟨-, _, hsome, hnext⟩ | ⟨-, hnone⟩
  swap
  · cases hnone
  cases hsome
  obtain ⟨hlt, hlimit, hstart, hstop⟩ := pageRangeIsValid_iff.1 hnext.range
  have h1 := h.keeps hk1 ((add_le_add_right c.table_le _).trans le_self_add)
  have hsweep : Triple μ 0 ({lock (.space i)} + c.pageTable.sites)
      (fun s ↦ Tlb.All (fun e ↦ Within start stop e.virtualPage ∨ Agrees c.pageTable e) i s ∧
        c.pageTable.LockedResident μ s ∅)
      (c.pageTable.walkRange start stop (ignoring fun t page ↦ t.protect page protection))
      (fun r ↦ {lock (.space i)} + r.2.sites)
      fun r s ↦ r.1 = .ok ∧ r.2.Has (swept start stop
          (fun _ pte ↦ some (revised pte pte.frame protection {} {})) c.pageTable.pte) ∧
        (Tlb.All (fun e ↦ Within start stop e.virtualPage ∨ Agrees r.2 e) i s ∧
          r.2.LockedResident μ s ∅) := by
    refine sweep_spec (J := fun t s ↦ Tlb.All (fun e ↦ Within start stop e.virtualPage ∨
      Agrees t e) i s ∧ t.LockedResident μ s ∅) _ h.wf.has hlt.le hlimit hstart hstop
      fun k t g pte hin hg hk ↦ ?_
    have hprotect : Triple μ 0 t.sites (fun s ↦ LockedResident μ s t ∅)
        (t.protect (k * pageSize) protection) (fun r ↦ r.2.sites)
        fun r s ↦ LockedResident μ s r.2 ∅ ∧ r.1 = .ok ∧
          r.2.Has (Function.update g k (some (revised pte pte.frame protection {} {}))) :=
      updateAttributes_at hg hk rfl rfl rfl nofun
    intro s x w hK hat ⟨htlb, hlocked⟩
    refine hprotect.seq hat (add_comm _ _) zero_le hlocked
      fun r w1 hat1 hk1 ⟨hlocked1, _, hhas1⟩ ↦ ?_
    refine ⟨hat1.congr (add_comm _ _), rfl, hhas1, ?_, hlocked1⟩
    refine (htlb.keeps hk1 (by simp)).mono fun e he ↦ ?_
    by_cases hpage : e.virtualPage = k
    · exact .inl (hpage ▸ hin)
    · refine he.imp_right fun hagrees ↦ ?_
      rw [Agrees, hhas1.pte, Function.update_of_ne hpage, ← hg.pte]
      exact hagrees
  refine hsweep.seq (F := bindingSites c.bindings) hat1 ?_ zero_le
    ⟨h1.tlb.mono fun e he ↦ .inr he, h1.locked⟩ ?_
  · rw [zero_add, sites_eq, add_assoc]
  rintro ⟨status, t⟩ w2 hat2 hk2 ⟨-, hhas, htlb, hlocked⟩
  dsimp only at hat2 hhas htlb hlocked ⊢
  refine (Tlb.invalidateRange_spec start stop).seq hat2 (add_assoc _ _ _) zero_le htlb
    fun _ w3 hat3 hk3 htlb3 ↦ ?_
  refine (publishLocked_spec next).aside hat3 trivial ?_
  rintro _ w4 hat4 hk4 rfl
  have hle4 : {lock (.space i)} + t.sites ≤ {lock (.space i)} +
    (t.sites + bindingSites c.bindings) + x := by
    rw [← add_assoc]
    exact le_self_add.trans le_self_add
  refine ⟨hat4.congr ?_, ⟨?_, ?_, ?_, ?_⟩, .inl ⟨rfl, ⟨hnext, hhas.pte, rfl⟩⟩⟩
  · rw [zero_add]
    rfl
  · exact ⟨hnext.good, hhas.good, h.wf.cookies, h.wf.nextCookie, h.wf.base,
      h.wf.reprotected hnext hhas⟩
  · have hb := ((h1.bound.keeps hk2).keeps hk3).keeps hk4
    refine (bound_iff hnext.good).2 fun a x hx ↦ ?_
    exact viewBound_reprotected hnext ((bound_iff h.wf.snapshot).1 hb) hx
  · refine (htlb3.keeps hk4 (Multiset.mem_of_le hle4 (by simp))).mono fun e he ↦ ?_
    exact he.1.resolve_left (not_within hlimit hstart he.2)
  · refine (hlocked.keeps hk3 ?_).keeps hk4 ((le_add_left le_rfl).trans hle4)
    exact le_self_add.trans le_self_add

theorem emptyRangeStatus_spec :
    Spends μ 0 0 (fun _ ↦ True) (emptyRangeStatus i) := by
  intro s x w hK hat h
  exact closing_spec.next hat h fun _ w1 hat1 _ _ ↦ ⟨hat1, trivial⟩

theorem mprotect_spec (address length : ℕ) (protection : Prot) :
    Spends μ 0 0 (fun s ↦ i < s.nextSpace) (mprotect i address length protection) := by
  refine .guard fun _ ↦ .ite (fun _ ↦ ?_) fun _ ↦ ?_
  · refine .guard fun _ ↦ ?_
    exact emptyRangeStatus_spec.pre (fun _ _ ↦ trivial)
  split
  · exact .pure rfl fun _ _ ↦ trivial
  refine .guard fun _ ↦ withLock_plain fun c _ ↦ ?_
  exact (mprotectLocked_spec protection).post fun _ _ h ↦ h.1

/-! ## Populating -/

/-- The space with another next cookie, which is of no concern to its pages. -/
def withCookie (c : Space) (cookie : ℕ) : Space := { c with nextMappingCookie := cookie }

theorem populatePageLocked_withCookie (c : Space) (cookie address : ℕ) :
    (c.withCookie cookie).populatePageLocked address =
      c.populatePageLocked address >>= fun r ↦ pure (r.1, r.2.withCookie cookie) := by
  unfold populatePageLocked
  simp only [withCookie, pteAt]
  split_ifs
  · rfl
  cases c.vmaSnapshot.lookup address with
  | none => rfl
  | some v =>
    dsimp only
    cases Binding.find v.mappingCookie c.bindings with
    | none => rfl
    | some b =>
      dsimp only
      cases c.pageTable.lookup address with
      | some pte =>
        dsimp only
        rw [Prog.bind_assoc]
        rfl
      | none =>
        dsimp only
        rw [Prog.bind_assoc]
        refine congrArg _ (funext fun info ↦ ?_)
        rw [Prog.bind_assoc]
        refine congrArg _ (funext fun r ↦ ?_)
        split_ifs
        · rfl
        · rw [Prog.bind_assoc]
          refine congrArg _ (funext fun r ↦ ?_)
          rw [Prog.bind_assoc]
          rfl

/-- What `MAP_POPULATE` leaves: more entries in an interval of pages. -/
structure Grown (k pages : ℕ) (c c' : Space) : Prop where
  table : ∃ t, c' = c.setTable t
  others : ∀ p, ¬(k ≤ p ∧ p < k + pages) → c'.pageTable.pte p = c.pageTable.pte p
  old : ∀ p pte, c.pageTable.pte p = some pte → c'.pageTable.pte p = some pte
  fresh : ∀ p pte, c.pageTable.pte p = none → c'.pageTable.pte p = some pte →
    pte.flags.accessed = false ∧ pte.flags.dirty = false ∧ pte.flags.locked = false

theorem Grown.refl (k pages : ℕ) (c : Space) : Grown k pages c c :=
  ⟨⟨c.pageTable, rfl⟩, fun _ _ ↦ rfl, fun _ _ h ↦ h, fun _ _ hn hs ↦ by cases hn.symm.trans hs⟩

theorem populatePageLocked_table (c : Space) (address : ℕ) :
    Code.Returns (c.populatePageLocked address) fun r ↦ ∃ t, r.2 = c.setTable t := by
  have hsame : ∃ t, c = c.setTable t := ⟨c.pageTable, rfl⟩
  unfold populatePageLocked
  split_ifs
  · exact hsame
  split
  · exact hsame
  split
  · exact hsame
  split
  · exact Code.Returns.seq fun _ ↦ hsame
  · refine Code.Returns.seq fun info ↦ Code.Returns.seq ?_
    rintro ⟨status, f, created⟩
    dsimp only
    split_ifs
    · exact hsame
    · refine Code.Returns.seq ?_
      rintro ⟨status, t⟩
      exact Code.Returns.seq fun _ ↦ ⟨t, rfl⟩

theorem populatePage_spec {cookie address : ℕ} :
    Triple μ 0 ({lock (.space i)} + c.sites) (Sound μ i bad (c.withCookie cookie))
      (c.populatePageLocked address) (fun r ↦ {lock (.space i)} + r.2.sites)
      fun r s ↦ Sound μ i bad (r.2.withCookie cookie) s ∧ Grown (address / pageSize) 1 c r.2 := by
  intro s x w hK hat h
  have hpopulate : Triple μ 0 ({lock (.space i)} + (c.withCookie cookie).sites)
      (Sound μ i bad (c.withCookie cookie))
      ((c.withCookie cookie).populatePageLocked address) _ _ :=
    populatePageLocked_spec
  have hwp := hpopulate s x w hK hat h
  rw [populatePageLocked_withCookie, Prog.wp_bind] at hwp
  refine Prog.wp_mono (Prog.wp_yields hwp (populatePageLocked_table c address)) ?_
  rintro r w' ⟨⟨hat', hsound, hpopulated, -⟩, htable⟩
  refine ⟨hat', hsound, htable, fun p hp ↦ hpopulated.others p (by omega), fun p pte hp ↦ ?_,
    fun p pte hnone hp ↦ ?_⟩
  · by_cases hpk : p = address / pageSize
    · exact hpk ▸ hpopulated.old pte (hpk ▸ hp)
    · exact (hpopulated.others p hpk).trans hp
  · by_cases hpk : p = address / pageSize
    · exact hpopulated.fresh pte (hpk ▸ hnone) (hpk ▸ hp)
    · have hsame : r.2.pageTable.pte p = c.pageTable.pte p := hpopulated.others p hpk
      rw [hsame, hnone] at hp
      cases hp

theorem Grown.trans {k pages : ℕ} {c1 c2 : Space} (h : Grown k 1 c c1)
    (h' : Grown (k + 1) pages c1 c2) : Grown k (pages + 1) c c2 := by
  obtain ⟨t1, rfl⟩ := h.table
  obtain ⟨t2, rfl⟩ := h'.table
  refine ⟨⟨t2, rfl⟩, fun p hp ↦ ?_, fun p pte hp ↦ h'.old p pte (h.old p pte hp),
    fun p pte hnone hp ↦ ?_⟩
  · rw [h'.others p (by omega), h.others p (by omega)]
  · cases hp1 : t1.pte p with
    | none => exact h'.fresh p pte hp1 hp
    | some pte1 =>
      cases (h'.old p pte1 hp1).symm.trans hp
      exact h.fresh p pte hnone hp1

theorem Grown.more {k pages : ℕ} (h : Grown k 1 c c') : Grown k (pages + 1) c c' :=
  ⟨h.table, fun p hp ↦ h.others p (by omega), h.old, h.fresh⟩

theorem populateRange_spec {cookie : ℕ} (pages : ℕ) {c : Space} (page : ℕ) :
    Triple μ 0 ({lock (.space i)} + c.sites) (Sound μ i bad (c.withCookie cookie))
      (populateRange pages c page) (fun c' ↦ {lock (.space i)} + c'.sites)
      fun c' s ↦ Sound μ i bad (c'.withCookie cookie) s ∧ Grown (page / pageSize) pages c c' := by
  induction pages generalizing c page with
  | zero => exact .pure rfl fun _ h ↦ ⟨h, .refl _ _ _⟩
  | succ pages ih =>
    intro s x w hK hat h
    refine populatePage_spec.first hat h ?_
    rintro ⟨status, c1⟩ w1 hat1 - ⟨hsound, hgrown⟩
    rw [add_zero] at hat1
    dsimp only
    split_ifs
    · exact ⟨hat1, hsound, hgrown.more⟩
    · refine (ih (page + pageSize)).tail (F := 0) hat1 (add_zero _).symm zero_le hsound
        fun c2 w2 hat2 _ ⟨hsound2, hgrown2⟩ ↦ ?_
      rw [Nat.add_div_right _ (by decide)] at hgrown2
      exact ⟨hat2.congr (add_zero _), hsound2, hgrown.trans hgrown2⟩

/-! ## Placement -/

/-- There is a place of which `P` holds, or an error. -/
def Placement (P : ℕ → VmaSnapshot → Prop) (r : Status × ℕ × Option VmaSnapshot) : Prop :=
  (r.1 = .ok ∧ ∃ t, r.2.2 = some t ∧ P r.2.1 t) ∨ (r.1 ≠ .ok ∧ r.2.2 = none)

theorem Placement.of_built {P : ℕ → VmaSnapshot → Prop} {address : ℕ}
    {r : Status × Option VmaSnapshot} (h : Built (P address) r) :
    Placement P (r.1, address, r.2) := h

theorem Placement.mono {P P' : ℕ → VmaSnapshot → Prop} {r : Status × ℕ × Option VmaSnapshot}
    (h : Placement P r) (hP : ∀ a t, P a t → P' a t) : Placement P' r := by
  refine h.imp_left ?_
  rintro ⟨hok, t, ht, hp⟩
  exact ⟨hok, t, ht, hP _ _ hp⟩

theorem placeInGap_placement (h : c.vmaSnapshot.Good) (lower length : ℕ) (vmaAt : ℕ → Vma) :
    (c.placeInGap lower length vmaAt).Mallocs (fun _ ↦ True)
      (Placement fun address t ↦ Inserted c.vmaSnapshot (vmaAt address) t) := by
  unfold placeInGap
  dsimp only
  split_ifs with hfound
  · exact .inr ⟨hfound, rfl⟩
  · refine (insert_built h _).bind fun r hr ↦ ?_
    exact Placement.of_built (P := fun address t ↦ Inserted c.vmaSnapshot (vmaAt address) t) hr

theorem placeNear_placement (h : c.vmaSnapshot.Good) (hint length : ℕ) (vmaAt : ℕ → Vma) :
    (c.placeNear hint length vmaAt).Mallocs (fun _ ↦ True)
      (Placement fun address t ↦ Inserted c.vmaSnapshot (vmaAt address) t) := by
  refine (insert_built h _).bind ?_
  rintro ⟨status, built⟩ hr
  dsimp only
  split_ifs
  · exact placeInGap_placement h _ _ _
  · exact Placement.of_built (P := fun address t ↦ Inserted c.vmaSnapshot (vmaAt address) t) hr

/-- The mapping that `minimm_mmap` makes at an address. -/
def newVma (c : Space) (args : MmapArgs) (length : ℕ) (maximum : Prot) (address : ℕ) : Vma :=
  mappingMakeVma args address (address + length) maximum c.nextMappingCookie

/-- `MAP_FIXED` without `MAP_FIXED_NOREPLACE` takes the place of what is mapped. -/
def replaces (flags : MapFlags) : Bool := flags.fixed && !flags.fixedNoreplace

theorem mmapPlace_placement (h : c.vmaSnapshot.Good) (args : MmapArgs) (length : ℕ)
    (maximum : Prot) :
    (c.mmapPlace args length maximum).Mallocs (fun _ ↦ True) (Placement fun address t ↦
      Laid c.vmaSnapshot (c.newVma args length maximum address) t ∧
        (replaces args.flags = false →
          Inserted c.vmaSnapshot (c.newVma args length maximum address) t) ∧
        (args.flags.fixed || args.flags.fixedNoreplace → address = args.addressHint)) := by
  unfold mmapPlace
  dsimp only
  split_ifs with hfixed hbad hnoreplace hhint
  · exact .inr ⟨nofun, rfl⟩
  · refine (insert_built h _).bind fun r hr ↦ ?_
    refine hr.imp_left ?_
    rintro ⟨hok, t, ht, hinserted⟩
    exact ⟨hok, t, ht, hinserted.laid, fun _ ↦ hinserted, fun _ ↦ rfl⟩
  · refine (replaceRange_built h _).bind fun r hr ↦ ?_
    refine hr.imp_left ?_
    rintro ⟨hok, t, ht, hlaid⟩
    refine ⟨hok, t, ht, hlaid, fun hreplaces ↦ ?_, fun _ ↦ rfl⟩
    simp_all [replaces]
  · exact (placeNear_placement h _ _ _).mono fun _ hr ↦
      Placement.mono hr fun _ _ ht ↦ ⟨ht.laid, fun _ ↦ ht, fun hand ↦ absurd hand hfixed⟩
  · exact (placeInGap_placement h _ _ _).mono fun _ hr ↦
      Placement.mono hr fun _ _ ht ↦ ⟨ht.laid, fun _ ↦ ht, fun hand ↦ absurd hand hfixed⟩

/-! ## Mapping -/

/-- A new mapping `v` of the backing `b`, with entries of its own only if it is populated. -/
structure Mmapped (v : Vma) (b : BackingId) (populate : Bool) (c c' : Space) : Prop where
  snapshot : Laid c.vmaSnapshot v c'.vmaSnapshot
  entries : ∀ p, ¬Within v.start v.stop p → c'.pageTable.pte p = c.pageTable.pte p
  inside : ∀ p pte, Within v.start v.stop p → c'.pageTable.pte p = some pte → populate = true ∧
    pte.flags.accessed = false ∧ pte.flags.dirty = false ∧ pte.flags.locked = false
  bindings : c'.bindings =
    (Binding.prune (⟨b, c.nextMappingCookie⟩ :: c.bindings) c'.vmaSnapshot).1
  rest : { c with
    pageTable := c'.pageTable, vmaSnapshot := c'.vmaSnapshot, bindings := c'.bindings
    nextMappingCookie := c.nextMappingCookie + 1 } = c'

theorem contains_page {v : Vma} {p : ℕ} :
    v.contains (p * pageSize) = true ↔ Within v.start v.stop p := contains_iff

theorem Wf.laid {v : Vma} (h : c.Wf) (hnext : Laid c.vmaSnapshot v next)
    (ht : t.Has (swept v.start v.stop (fun _ _ ↦ none) c.pageTable.pte)) :
    Fits { c with vmaSnapshot := next } t.pte := by
  refine (fits_iff (c := { c with vmaSnapshot := next }) hnext.good).2 fun p pte hp ↦ ?_
  rw [ht.pte] at hp
  by_cases hin : Within v.start v.stop p
  · rw [swept_of_within hin, Option.bind_fun_none] at hp
    cases hp
  · rw [swept_of_not hin] at hp
    rw [hnext.view, if_neg fun hc ↦ hin (contains_page.1 hc)]
    exact h.view hp

theorem Wf.free {v : Vma} (h : c.Wf) (hnext : Inserted c.vmaSnapshot v next) :
    c.pageTable.Has (swept v.start v.stop (fun _ _ ↦ none) c.pageTable.pte) := by
  refine h.has.congr fun p ↦ ?_
  by_cases hin : Within v.start v.stop p
  · rw [swept_of_within hin, Option.bind_fun_none]
    by_contra hne
    obtain ⟨pte, hpte⟩ := Option.ne_none_iff_exists'.1 hne
    obtain ⟨x, hx, -⟩ := h.view hpte
    rw [hnext.free _ (contains_page.2 hin)] at hx
    cases hx
  · rw [swept_of_not hin]

theorem ViewBound.cons {y : View} (hy : ViewBound s c.bindings y) (h : c.Wf) (b : BackingId) :
    ViewBound s (⟨b, c.nextMappingCookie⟩ :: c.bindings) y := by
  obtain ⟨hne, β, hβ, hlt, hkind⟩ := hy
  have hmem := List.mem_of_find?_eq_some hβ
  have hk : β.cookie = y.mappingCookie := by simpa using List.find?_some hβ
  have hfresh : ¬c.nextMappingCookie = y.mappingCookie := by
    rw [← hk]
    exact (h.cookies β hmem).ne'
  refine ⟨hne, β, ?_, hlt, hkind⟩
  rw [← hβ]
  simp [Binding.find, hfresh]

theorem Wf.cookies_cons (h : c.Wf) (b : BackingId) :
    ∀ β ∈ (⟨b, c.nextMappingCookie⟩ :: c.bindings : List Binding),
      β.cookie < c.nextMappingCookie + 1 :=
  List.forall_mem_cons.2 ⟨Nat.lt_succ_self _, fun β hβ ↦
    (h.cookies β hβ).trans (Nat.lt_succ_self _)⟩

theorem viewBound_new {v : Vma} {b : BackingId} {info : BackingInfo} (h : c.Wf)
    (hinfo : BackingIs b info s) (hshared : info.kind.shared = v.shared)
    (hcookie : v.mappingCookie = c.nextMappingCookie) (a : ℕ) :
    ViewBound s (⟨b, c.nextMappingCookie⟩ :: c.bindings) (v.view a) := by
  refine ⟨fun hzero ↦ h.nextCookie (hcookie.symm.trans hzero), ⟨b, c.nextMappingCookie⟩, ?_,
    hinfo.lt, ?_⟩
  · simp [Binding.find, Vma.view, hcookie]
  · rw [hinfo.eq]
    exact hshared

theorem viewBound_cons {v : Vma} {b : BackingId} {info : BackingInfo} (h : c.Wf) (hb : c.Bound s)
    (hinfo : BackingIs b info s) (hshared : info.kind.shared = v.shared)
    (hcookie : v.mappingCookie = c.nextMappingCookie) (hnext : Laid c.vmaSnapshot v next) {a : ℕ}
    {x : View} (hx : viewAt next.ranges a = some x) :
    ViewBound s (⟨b, c.nextMappingCookie⟩ :: c.bindings) x := by
  rw [hnext.view] at hx
  split_ifs at hx
  · cases hx
    exact viewBound_new h hinfo hshared hcookie a
  · exact ((bound_iff h.snapshot).1 hb a x hx).cons h b

theorem Sound.keeps_sites (h : Sound μ i bad c s) {s' : Sys} {F : Multiset Handle}
    (hk : Keeps (F + x) s s') (hF : {lock (.space i)} + c.sites ≤ F) : Sound μ i bad c s' :=
  h.keeps hk (((add_le_add_right c.table_le _).trans hF).trans le_self_add)

theorem makeRoom_spec {flags : MapFlags} {v : Vma} (h : c.Wf) (hlaid : Laid c.vmaSnapshot v next)
    (hfree : replaces flags = false → Inserted c.vmaSnapshot v next) :
    Triple μ 0 ({lock (.space i)} + c.pageTable.sites)
      (fun s ↦ Tlb.All (Agrees c.pageTable) i s ∧ c.pageTable.LockedResident μ s bad)
      (if flags.fixed && !flags.fixedNoreplace then
        unmapPagesLocked i c.pageTable v.start v.stop else pure c.pageTable)
      (fun t ↦ {lock (.space i)} + t.sites)
      fun t s ↦ t.Has (swept v.start v.stop (fun _ _ ↦ none) c.pageTable.pte) ∧
        Tlb.All (Agrees t) i s ∧ t.LockedResident μ s bad := by
  refine .ite (fun _ ↦ ?_) fun hkeep ↦ .pure rfl fun s hs ↦ ⟨h.free (hfree ?_), hs⟩
  · exact unmapPagesLocked_spec h.has hlaid.valid.lt.le hlaid.valid.limit hlaid.valid.startAligned
      hlaid.valid.stopAligned
  · exact Bool.eq_false_of_not_eq_true hkeep

theorem Sound.laid {v : Vma} {b : BackingId} {info : BackingInfo} (h : c.Wf) (hb : c.Bound s)
    (hinfo : BackingIs b info s) (hshared : info.kind.shared = v.shared)
    (hcookie : v.mappingCookie = c.nextMappingCookie) (hnext : Laid c.vmaSnapshot v next)
    (ht : t.Has (swept v.start v.stop (fun _ _ ↦ none) c.pageTable.pte))
    (htlb : Tlb.All (Agrees t) i s) (hlocked : t.LockedResident μ s bad) :
    Sound μ i bad { c with
      pageTable := t
      vmaSnapshot := next
      bindings := (Binding.prune (⟨b, c.nextMappingCookie⟩ :: c.bindings) next).1
      nextMappingCookie := c.nextMappingCookie + 1 } s := by
  refine ⟨⟨hnext.good, ht.good, fun β hβ ↦ ?_, Nat.succ_ne_zero _, h.base, h.laid hnext ht⟩, ?_,
    htlb, hlocked⟩
  · exact h.cookies_cons b β (Binding.mem_prune hβ)
  · exact bound_prune hnext.good (fun a x ↦ viewBound_cons h hb hinfo hshared hcookie hnext) rfl rfl

theorem populateWhen_spec (cookie : ℕ) {wanted : Prop} [Decidable wanted] (pages page : ℕ) :
    Triple μ 0 ({lock (.space i)} + c.sites) (Sound μ i bad (c.withCookie cookie))
      (if wanted then populateRange pages c page else pure c)
      (fun c' ↦ {lock (.space i)} + c'.sites)
      fun c' s ↦ Sound μ i bad (c'.withCookie cookie) s ∧ Grown (page / pageSize) pages c c' ∧
        (¬wanted → c' = c) :=
  .ite (fun hwanted ↦ (populateRange_spec pages page).post
    fun _ _ h ↦ ⟨h.1, h.2, fun hnot ↦ absurd hwanted hnot⟩)
    fun _ ↦ .pure rfl fun _ h ↦ ⟨h, .refl _ _ _, fun _ ↦ rfl⟩

theorem mmapLocked_spec {args : MmapArgs} {length : ℕ} {maximum : Prot} {b : BackingId}
    {info : BackingInfo} (hshared : info.kind.shared = args.flags.shared) :
    Triple μ 0 ({lock (.space i)} + c.sites + {backing b})
      (fun s ↦ Sound μ i ∅ c s ∧ BackingIs b info s) (mmapLocked i args length maximum b c)
      (fun r ↦ {lock (.space i)} + r.2.sites + bindingSites r.1.2.2)
      fun r s ↦ Sound μ i ∅ r.2 s ∧
        (r.1.1 = .ok ∧ Mmapped (c.newVma args length maximum r.1.2.1) b
              (args.flags.populate && args.protection ≠ .none) c r.2 ∧
            (replaces args.flags = false →
              Inserted c.vmaSnapshot (c.newVma args length maximum r.1.2.1) r.2.vmaSnapshot) ∧
            (args.flags.fixed || args.flags.fixedNoreplace → r.1.2.1 = args.addressHint) ∨
          r.1.1 ≠ .ok ∧ r.1.2 = (addressAuto, [⟨b, 0⟩]) ∧ r.2 = c) := by
  intro s x w hK hat ⟨h, hinfo⟩
  unfold mmapLocked
  by_cases hmax : c.nextMappingCookie = sizeMax
  · rw [if_pos hmax]
    exact ⟨hat.congr (by simp), h, .inr ⟨nofun, rfl, rfl⟩⟩
  rw [if_neg hmax]
  refine (mmapPlace_placement h.wf.snapshot args length maximum).triple.aside hat trivial ?_
  rintro ⟨status, address, next⟩ w1 hat1 hk1 (⟨-, next, rfl, hlaid, hfree, hfixed⟩ | ⟨hbad, rfl⟩)
  swap
  · exact ⟨hat1.congr (by simp), h.keeps_sites hk1 le_self_add, .inr ⟨hbad, rfl, rfl⟩⟩
  have h1 := h.keeps_sites hk1 le_self_add
  refine (makeRoom_spec h.wf hlaid hfree).seq (F := bindingSites c.bindings + {backing b}) hat1 ?_
    zero_le ⟨h1.tlb, h1.locked⟩ ?_
  · rw [zero_add, sites_eq]
    ac_rfl
  rintro t w2 hat2 hk2 ⟨hhas, htlb, hlocked⟩
  refine (publishLocked_spec next).aside hat2 trivial ?_
  rintro _ w3 hat3 hk3 rfl
  have hle : {lock (.space i)} + t.sites ≤
      {lock (.space i)} + t.sites + (bindingSites c.bindings + {backing b}) + x :=
    le_self_add.trans le_self_add
  have hbound := ((h1.bound.keeps hk2).keeps hk3)
  have hinfo3 := ((hinfo.keeps hk1).keeps hk2).keeps hk3
  have hsound := Sound.laid h.wf hbound hinfo3 hshared rfl hlaid hhas
    (htlb.keeps hk3 (Multiset.mem_of_le hle (by simp)))
    (hlocked.keeps hk3 ((le_add_left le_rfl).trans hle))
  refine (populateWhen_spec (c.nextMappingCookie + 1) (length / pageSize) address).seq
    (F := bindingSites (Binding.prune (⟨b, c.nextMappingCookie⟩ :: c.bindings) next).2) hat3 ?_
    zero_le hsound ?_
  · have hsites := Binding.sites_prune (⟨b, c.nextMappingCookie⟩ :: c.bindings) next
    rw [bindingSites_cons, add_comm] at hsites
    dsimp only
    rw [zero_add, hsites, sites_eq]
    change _ = _ + (t.sites + _) + _
    ac_rfl
  rintro c' w4 hat4 - ⟨hsound4, hgrown, hsame⟩
  obtain ⟨t', rfl⟩ := hgrown.table
  refine ⟨hat4, hsound4,
    .inl ⟨rfl, ⟨hlaid, fun p hp ↦ ?_, fun p pte hp hpte ↦ ?_, rfl, rfl⟩, hfree, hfixed⟩⟩
  · have hold := hgrown.others p fun hin ↦ hp ?_
    · exact hold.trans ((hhas.pte p).trans (swept_of_not hp))
    · have hstart := hlaid.valid.startAligned
      have hstop := hlaid.valid.stopAligned
      simp only [newVma, mappingMakeVma, Within, pageSize] at *
      omega
  · have hnone : t.pte p = none := by
      rw [hhas.pte, swept_of_within hp, Option.bind_fun_none]
    refine ⟨?_, hgrown.fresh p pte hnone hpte⟩
    by_contra hwanted
    have heq : t'.pte p = t.pte p := congrArg (fun c ↦ c.pageTable.pte p) (hsame hwanted)
    cases (heq.trans hnone).symm.trans hpte

theorem mappingValidateBacking_spec (args : MmapArgs) (length : ℕ) (maximum : Prot) :
    Spends μ 0 0 (fun _ ↦ True) (mappingValidateBacking args length maximum) := by
  refine .guard fun _ ↦ ?_
  split
  · exact .pure rfl fun _ _ ↦ trivial
  refine .guard fun _ ↦ ?_
  intro s x w hK hat h
  refine noteInfo_any.next hat trivial fun info w1 hat1 _ _ ↦ ?_
  split_ifs
  · exact ⟨hat1, trivial⟩
  · refine loadSize_spec.next hat1 trivial fun size w2 hat2 _ _ ↦ ?_
    exact ⟨hat2, trivial⟩

theorem bindingCreate_spec :
    Spends μ 0 0 (fun _ ↦ True) Binding.create := by
  intro s x w hK hat h
  exact malloc_spec.next hat trivial fun _ w1 hat1 _ _ ↦ ⟨hat1, trivial⟩

theorem mmapChecked_spec (args : MmapArgs) (length : ℕ) (maximum : Prot) :
    Spends μ 0 0 (fun s ↦ i < s.nextSpace ∧ Backing.NoteExists args.note s)
      (mmapChecked i args length maximum) := by
  intro s x w hK hat ⟨h, hnote⟩
  refine (Backing.create_spec args.note args.flags).next hat hnote ?_
  rintro ⟨status, b⟩ w1 hat1 hk1 hmade
  dsimp only
  by_cases hok : status = .ok
  swap
  · rw [if_pos hok]
    exact ⟨hat1.congr (by simp [Backing.gotBacking, hok]), trivial⟩
  subst hok
  obtain ⟨kind, hinfo, hshared⟩ := hmade rfl
  rw [if_neg (by simp)]
  refine (mappingValidateBacking_spec args length maximum).aside hat1 trivial
    fun status w2 hat2 hk2 _ ↦ ?_
  have hcreate : Spends μ 0 0 (fun _ ↦ True)
      (if status = .ok then Binding.create else pure status) :=
    .ite (fun _ ↦ bindingCreate_spec) fun _ ↦ .pure rfl fun _ _ ↦ trivial
  refine hcreate.seq hat2 rfl zero_le trivial fun status w3 hat3 hk3 _ ↦ ?_
  have hat3' : At μ s x {backing b} w3 := hat3.congr (by simp [Backing.gotBacking])
  split_ifs
  · refine Backing.release_spec.seq (F := 0) hat3' (add_zero _).symm zero_le trivial
      fun _ w4 hat4 _ _ ↦ ?_
    exact ⟨hat4, trivial⟩
  · refine (withLock_destroy_spec (i := i) (K := 0) (P := BackingIs b ⟨kind, args.note⟩)
      (fun r : Status × ℕ × List Binding ↦ r.2.2) (fun r ↦ (r.1, r.2.1)) rfl
      (fun _ hk hb ↦ hb.keeps hk) fun c _ ↦ (mmapLocked_spec hshared).post fun _ _ h ↦ h.1).tail
        (F := 0) hat3' (add_zero _).symm zero_le ⟨?_, ?_⟩
      fun _ w4 hat4 _ _ ↦ ⟨hat4, trivial⟩
    · exact ((h.trans_le hk1.nextSpace).trans_le hk2.nextSpace).trans_le hk3.nextSpace
    · exact (hinfo.keeps hk2).keeps hk3

theorem mmap_spec (args : MmapArgs) :
    Spends μ 0 0 (fun s ↦ i < s.nextSpace ∧ Backing.NoteExists args.note s) (mmap i args) := by
  refine .guard fun _ ↦ ?_
  have hrights : Spends μ 0 0 (fun _ ↦ True) (rightsOf args.note) := by
    cases args.note with
    | none => exact .pure rfl fun _ _ ↦ trivial
    | some n =>
      intro s x w hK hat h
      exact noteInfo_any.next hat trivial fun _ w1 hat1 _ _ ↦ ⟨hat1, trivial⟩
  intro s x w hK hat h
  refine hrights.next hat trivial fun rights w1 hat1 hk1 _ ↦ ?_
  dsimp only
  generalize (if args.maximumProtection = .none then mappingDefaultMaximumProtection args rights
    else args.maximumProtection) = maximum
  split_ifs
  · exact ⟨hat1, trivial⟩
  split
  · exact ⟨hat1, trivial⟩
  · exact mmapChecked_spec args _ _ s x w1 hK hat1
      ⟨h.1.trans_le hk1.nextSpace, h.2.keeps hk1⟩

/-! ## The heap -/

/-- What `minimm_mapping_extend_heap` leaves of a space. -/
structure Extended (start stop : ℕ) (c c' : Space) : Prop where
  snapshot : ∃ tail, c.vmaSnapshot.lookup (start - 1) = some tail ∧ tail.stop = start ∧
    tail.shared = false ∧
    Inserted c.vmaSnapshot (heapExtension tail start stop) c'.vmaSnapshot
  rest : { c with vmaSnapshot := c'.vmaSnapshot } = c'

theorem backingInfo_any {b : BackingId} :
    Spends μ {backing b} 0 (fun _ ↦ True) (Backing.info b) :=
  .act (fun _ hle ↦ ⟨le_rfl, Multiset.mem_of_le hle (by simp)⟩) rfl

theorem Sound.inserted {v tail : Vma} (h : Sound μ i bad c s)
    (hnext : Inserted c.vmaSnapshot v next) (htail : tail ∈ c.vmaSnapshot.ranges)
    (hcookie : v.mappingCookie = tail.mappingCookie) (hshared : v.shared = tail.shared) :
    Sound μ i bad { c with vmaSnapshot := next } s := by
  have hfits : Fits { c with vmaSnapshot := next } c.pageTable.pte :=
    h.wf.laid hnext.laid (h.wf.free hnext)
  refine ⟨⟨hnext.good, h.wf.table, h.wf.cookies, h.wf.nextCookie, h.wf.base, hfits⟩, ?_, h.tlb,
    h.locked⟩
  refine (bound_iff hnext.good).2 fun a x hx ↦ ?_
  rw [hnext.view] at hx
  split_ifs at hx
  · cases hx
    have hb := h.bound tail htail
    rw [← hcookie, ← hshared] at hb
    exact hb
  · exact (bound_iff h.wf.snapshot).1 h.bound a x hx

theorem extendHeapLocked_spec (base : ℕ) :
    Works μ 0 i c (extendHeapLocked base start stop c) fun r _ ↦
      r.1 = .ok ∧ Extended start stop c r.2 ∨ r.1 ≠ .ok ∧ r.2 = c := by
  have hsame : ∀ {status : Status} {w : World} {s x}, status ≠ .ok →
      At μ s x ({lock (.space i)} + c.sites) w → Sound μ i ∅ c w.sys →
      At μ s x ({lock (.space i)} + c.sites) w ∧ (Sound μ i ∅ c w.sys ∧
        (status = .ok ∧ Extended start stop c c ∨ status ≠ .ok ∧ c = c)) :=
    fun hbad hat h ↦ ⟨hat, h, .inr ⟨hbad, rfl⟩⟩
  intro s x w hK hat h
  unfold extendHeapLocked
  split
  · exact hsame nofun hat h
  next tail htail =>
  split_ifs with hbad hgap
  · exact hsame nofun hat h
  · exact hsame nofun hat h
  split
  · exact hsame nofun hat h
  next binding hbinding =>
  have hmem := List.mem_of_find?_eq_some hbinding
  refine backingInfo_any.seq hat (zero_add _).symm
    ((backing_le hmem).trans ((le_add_left le_rfl).trans le_self_add)) trivial
    fun info w1 hat1 hk1 _ ↦ ?_
  rw [zero_add] at hat1
  have h1 := h.keeps_sites hk1 le_rfl
  by_cases hkind : info.kind ≠ .anonPrivate
  · rw [if_pos hkind]
    exact hsame nofun hat1 h1
  rw [if_neg hkind]
  refine (insert_built h.wf.snapshot _).triple.aside hat1 trivial ?_
  rintro ⟨status, next⟩ w2 hat2 hk2 (⟨-, next, rfl, hnext⟩ | ⟨hfailed, rfl⟩)
  swap
  · exact hsame hfailed (hat2.congr (zero_add _)) (h1.keeps_sites hk2 le_rfl)
  refine (publishLocked_spec next).seq hat2 rfl zero_le trivial ?_
  rintro _ w3 hat3 hk3 rfl
  have h3 := (h1.keeps_sites hk2 le_rfl).keeps_sites hk3 (by simp)
  obtain ⟨hstop, hprivate⟩ := not_or.1 hbad
  have hshared : tail.shared = false := Bool.eq_false_of_not_eq_true hprivate
  have hmem := ((lookup_eq_some h.wf.snapshot).1 htail).1
  exact ⟨hat3.congr (zero_add _), h3.inserted hnext hmem rfl hshared.symm,
    .inl ⟨rfl, ⟨⟨tail, htail, not_not.1 hstop, hshared, hnext⟩, rfl⟩⟩⟩

theorem extendHeap_spec (base start stop : ℕ) :
    Spends μ 0 0 (fun s ↦ i < s.nextSpace) (extendHeap i base start stop) := by
  refine .guard fun _ ↦ withLock_plain fun c _ ↦ ?_
  exact (extendHeapLocked_spec base).post fun _ _ h ↦ h.1

end Space

end MiniMM
