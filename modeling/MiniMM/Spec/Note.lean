import MiniMM.Spec.Lineage

/-!
# Specifications of the functions on notes
-/

namespace MiniMM

open Handle

namespace Note

variable {μ : Mode} {K : Multiset Handle} {v : Lineage} {n : NoteId} {l : LineageId}
  {offset : ℕ} {f : FrameId}

/-! ## Pages under the lock of the lineage -/

theorem cacheFrame_spec {make : Code (Status × FrameId)}
    (hmake : Triple μ K 0 (fun _ ↦ True) make (fun r ↦ got r.1 r.2) fun _ _ ↦ True)
    (hn : n ∈ v.members) (haligned : offset % pageSize = 0) :
    Triple μ ({lock (.lineage l)} + K) v.sites
      (fun s ↦ LineageOk s l v ∧ offset + pageSize ≤ s.noteSize n)
      (cacheFrame v n offset make) (fun r ↦ r.2.1.sites)
      fun r s ↦ LineageOk s l r.2.1 ∧ v.Kin r.2.1 ∧ (r.1 = .ok → ref r.2.2 ∈ r.2.1.sites) := by
  intro s x w hK hat ⟨hok, hsize⟩
  have hl : lock (.lineage l) ∈ x := Multiset.mem_of_le hK (by simp)
  have hle : K ≤ v.sites + x := (le_add_left le_rfl).trans (hK.trans (le_add_left le_rfl))
  rw [cacheFrame]
  split
  · rename_i g hg
    refine ⟨hat, hok, .refl, fun _ ↦ ?_⟩
    exact Multiset.mem_of_le (Lineage.pages_sites_le hn)
      (CachedPages.ref_mem_sites (CachedPages.mem_of_find hg))
  rename_i hnone
  refine malloc_spec.seq (F := v.sites) hat (zero_add _).symm zero_le trivial
    fun allocated w1 hat1 hk1 _ ↦ ?_
  have hl1 : lock (.lineage l) ∈ v.sites + x := Multiset.mem_add.2 (.inr hl)
  have hok1 := hok.keeps hk1 hl1
  have hsize1 := hok.noteSize_keeps hn hk1 hl1
  split_ifs with ha
  · exact ⟨hat1.congr (zero_add _), hok1, .refl, nofun⟩
  refine hmake.seq (F := v.sites) hat1 rfl hle trivial ?_
  rintro ⟨status, g⟩ w2 hat2 hk2 -
  have hok2 := hok1.keeps hk2 hl1
  have hsize2 := hok1.noteSize_keeps hn hk2 hl1
  dsimp only at hat2 ⊢
  split_ifs with hstatus
  · rw [got_of_ne hstatus] at hat2
    exact ⟨hat2.congr (zero_add _), hok2, .refl, fun h ↦ absurd h hstatus⟩
  rw [not_not.1 hstatus, got_ok] at hat2
  have hsites := Lineage.sites_setPages hok.nodup hn ((v.pages n).insert offset g)
  rw [CachedPages.sites_insert] at hsites
  have hnew : (v.setPages n ((v.pages n).insert offset g)).sites = {ref g} + v.sites := by
    refine add_right_cancel (b := (v.pages n).sites) (hsites.trans ?_)
    ac_rfl
  refine ⟨hat2.congr hnew.symm, ?_, .setPages _, fun _ ↦ ?_⟩
  · exact hok2.insertPage hn hnone haligned (by rw [hsize2, hsize1]; exact hsize)
  · dsimp only
    rw [hnew]
    simp

/-- What the functions that may cache a page leave: the frame they return is in the lineage. -/
def Cached (l : LineageId) (v : Lineage) (r : Status × Lineage × FrameId) (s : Sys) : Prop :=
  LineageOk s l r.2.1 ∧ v.Kin r.2.1 ∧ (r.1 = .ok → ref r.2.2 ∈ r.2.1.sites)

theorem cacheBackingPageLocked_spec (hn : n ∈ v.members) (haligned : offset % pageSize = 0) :
    Triple μ {lock (.lineage l)} v.sites
      (fun s ↦ LineageOk s l v ∧ offset + pageSize ≤ s.noteSize n)
      (cacheBackingPageLocked v n offset) (fun r ↦ r.2.1.sites) (Cached l v) := by
  refine cacheFrame_spec (K := 0) ?_ hn haligned
  intro s x w hK hat _
  refine noteInfo_any.next hat trivial fun i w1 hat1 _ _ ↦ ?_
  refine (create_spec _ _ _ _).next hat1 trivial ?_
  rintro ⟨status, g⟩ w2 hat2 - -
  dsimp only at hat2 ⊢
  split_ifs with hstatus
  · rw [got_of_ne hstatus] at hat2
    exact ⟨hat2.congr (got_of_ne hstatus).symm, trivial⟩
  rw [not_not.1 hstatus, got_ok] at hat2
  exact ensureOrRelease_spec (fun status ↦ (status, 0)) (.ok, g) (fun _ h ↦ got_of_ne h) got_ok
    s x w2 hK hat2 trivial

theorem cacheCopyLocked_spec (hn : n ∈ v.members) (haligned : offset % pageSize = 0) :
    Triple μ ({lock (.lineage l)} + {ref f}) v.sites
      (fun s ↦ LineageOk s l v ∧ offset + pageSize ≤ s.noteSize n)
      (cacheCopyLocked v n offset f) (fun r ↦ r.2.1.sites) (Cached l v) := by
  refine cacheFrame_spec ?_ hn haligned
  intro s x w hK hat _
  refine noteInfo_any.next hat trivial fun i w1 hat1 _ _ ↦ ?_
  exact (frameCopyFile_spec _ _).tail (F := 0) hat1 rfl (by simpa using hK) trivial
    fun _ w2 hat2 _ _ ↦ ⟨hat2.congr (add_zero _), trivial⟩

theorem readFrameFrom_spec (haligned : offset % pageSize = 0) (fuel : ℕ) (hn : n ∈ v.members) :
    Triple μ {lock (.lineage l)} v.sites
      (fun s ↦ LineageOk s l v ∧ offset + pageSize ≤ s.noteSize n)
      (readFrameFrom offset fuel v n) (fun r ↦ r.2.1.sites) (Cached l v) := by
  have hown : ∀ {n}, n ∈ v.members → Triple μ {lock (.lineage l)} v.sites
      (fun s ↦ LineageOk s l v ∧ offset + pageSize ≤ s.noteSize n)
      (readFrameFrom.readOwn offset v n) (fun r ↦ r.2.1.sites) (Cached l v) := by
    intro n hn s x w hK hat ⟨hok, hsize⟩
    have hl : lock (.lineage l) ∈ v.sites + x :=
      Multiset.mem_of_le (hK.trans (le_add_left le_rfl)) (by simp)
    refine loadSize_spec.seq (F := v.sites) hat (zero_add _).symm zero_le trivial
      fun size w1 hat1 hk1 _ ↦ ?_
    have hok1 := hok.keeps hk1 hl
    split_ifs with hge
    · exact ⟨hat1.congr (zero_add _), hok1, .refl, nofun⟩
    · refine cacheBackingPageLocked_spec hn haligned s x w1 hK (hat1.congr (zero_add _))
        ⟨hok1, ?_⟩
      rw [hok.noteSize_keeps hn hk1 hl]
      exact hsize
  induction fuel generalizing n with
  | zero => exact .pure rfl fun _ h ↦ ⟨h.1, .refl, nofun⟩
  | succ fuel ih =>
    rw [readFrameFrom]
    split
    · rename_i g hg
      refine .pure rfl fun _ h ↦ ⟨h.1, .refl, fun _ ↦ ?_⟩
      exact Multiset.mem_of_le (Lineage.pages_sites_le hn)
        (CachedPages.ref_mem_sites (CachedPages.mem_of_find hg))
    · split
      · rename_i parent hparent
        refine .ite (fun hlt ↦ ?_) fun _ ↦ hown hn
        -- the walk goes on in the parent, where the page exists too
        intro s x w hK hat ⟨hok, _⟩
        obtain ⟨hmem, hinside⟩ := hok.inherited_inside hn hparent haligned hlt
        exact ih hmem s x w hK hat ⟨hok, hinside⟩
      · exact hown hn

/-- What the functions that return a frame with a reference leave. -/
def Fetched (l : LineageId) (v : Lineage) (r : Status × Lineage × FrameId) (s : Sys) : Prop :=
  LineageOk s l r.2.1 ∧ v.Kin r.2.1

theorem getReadFrameLocked_spec (hn : n ∈ v.members) :
    Triple μ {lock (.lineage l)} v.sites (fun s ↦ LineageOk s l v)
      (getReadFrameLocked v n offset) (fun r ↦ r.2.1.sites + got r.1 r.2.2) 
      fun r s ↦ Fetched l v r s ∧ (r.1 = .ok → offset % pageSize = 0 ∧
        offset + pageSize ≤ s.noteSize n) := by
  intro s x w hK hat hok
  have hl : ∀ F : Multiset Handle, lock (.lineage l) ∈ F + x := fun F ↦
    Multiset.mem_of_le (hK.trans (le_add_left le_rfl)) (by simp)
  rw [getReadFrameLocked]
  refine loadSize_spec.seq (F := v.sites) hat (zero_add _).symm zero_le trivial
    fun size w1 hat1 hk1 hsize ↦ ?_
  have hok1 := hok.keeps hk1 (hl _)
  split_ifs with hinvalid
  · exact ⟨hat1.congr (by simp [got]), ⟨hok1, .refl⟩, nofun⟩
  have hinside : offset % pageSize = 0 ∧ offset + pageSize ≤ w1.sys.noteSize n := by
    rw [← hsize]
    simp only [pageSize] at *
    omega
  refine (readFrameFrom_spec hinside.1 (n + 1) hn).seq (F := 0) hat1 (add_comm _ _)
    (by simpa using hK) ⟨hok1, hinside.2⟩ ?_
  rintro ⟨status, v2, g⟩ w2 hat2 hk2 ⟨hok2, hkin, hmem⟩
  have hsize2 := hok1.noteSize_keeps hn hk2 (hl _)
  dsimp only at hat2 hok2 hkin hmem ⊢
  split_ifs with hstatus
  · exact ⟨hat2.congr (by simp [got, hstatus]), ⟨hok2, hkin⟩, fun h ↦ absurd h hstatus⟩
  refine retain_spec.seq (F := v2.sites) hat2 (add_comm _ _) ?_ trivial fun _ w3 hat3 hk3 _ ↦ ?_
  · exact (Multiset.singleton_le.2 (hmem (not_not.1 hstatus))).trans le_self_add
  · refine ⟨hat3.congr (by rw [got_ok, add_comm]), ⟨hok2.keeps hk3 (hl _), hkin⟩, fun _ ↦ ?_⟩
    have hsize3 := hok2.noteSize_keeps (hkin.members ▸ hn) hk3 (hl _)
    rw [hsize3, hsize2]
    exact hinside

theorem preserveChildrenLocked_spec (haligned : offset % pageSize = 0) (children : List NoteId)
    (hchildren : ∀ k ∈ children, k ∈ v.members ∧ (v.body k).cowParent ≠ none) :
    Triple μ ({lock (.lineage l)} + {ref f}) v.sites (fun s ↦ LineageOk s l v)
      (preserveChildrenLocked offset f children v) (fun r ↦ r.2.sites)
      fun r s ↦ LineageOk s l r.2 ∧ v.Kin r.2 := by
  induction children generalizing v with
  | nil => exact .pure rfl fun _ h ↦ ⟨h, .refl⟩
  | cons k rest ih =>
    intro s x w hK hat hok
    obtain ⟨hk, hparent⟩ := hchildren k List.mem_cons_self
    have hrest : ∀ j ∈ rest, j ∈ v.members ∧ (v.body j).cowParent ≠ none := fun j hj ↦
      hchildren j (List.mem_cons_of_mem _ hj)
    rw [preserveChildrenLocked]
    split_ifs with hlt
    · obtain ⟨p, hp⟩ := Option.ne_none_iff_exists'.1 hparent
      have hinside : offset + pageSize ≤ w.sys.noteSize k := by
        have hsize := hok.size k hk
        have hle := (hok.parent k hk p hp).2.2.2.1
        simp only [pageSize] at *
        omega
      refine (cacheCopyLocked_spec hk haligned).seq (F := 0) hat (add_zero _).symm
        (by simpa using hK) ⟨hok, hinside⟩ ?_
      rintro ⟨status, v1, g⟩ w1 hat1 - ⟨hok1, hkin, -⟩
      dsimp only at hat1 hok1 hkin ⊢
      split_ifs with hstatus
      · exact ⟨hat1.congr (add_zero _), hok1, hkin⟩
      · refine Prog.wp_mono (ih (fun j hj ↦ ?_) s x w1 hK (hat1.congr (add_zero _)) hok1) ?_
        · rw [hkin.members, hkin.parent]
          exact hrest j hj
        · rintro r w2 ⟨hat2, hok2, hkin2⟩
          exact ⟨hat2, hok2, hkin.trans hkin2⟩
    · exact ih hrest s x w hK hat hok

theorem children_ok {s : Sys} (h : LineageOk s l v) (hn : n ∈ v.members) :
    ∀ k ∈ (v.body n).children, k ∈ v.members ∧ (v.body k).cowParent ≠ none := by
  intro k hk
  obtain ⟨hmem, hparent⟩ := h.child n hn k hk
  exact ⟨hmem, by rw [hparent]; nofun⟩

theorem getPrivateFrameLocked_spec (hn : n ∈ v.members) :
    Triple μ {lock (.lineage l)} v.sites (fun s ↦ LineageOk s l v)
      (getPrivateFrameLocked v n offset) (fun r ↦ r.2.1.sites + got r.1 r.2.2)
      (Fetched l v) := by
  intro s x w hK hat hok
  have hlx : lock (.lineage l) ∈ x := Multiset.mem_of_le hK (by simp)
  have hl : ∀ F : Multiset Handle, lock (.lineage l) ∈ F + x := fun F ↦
    Multiset.mem_add.2 (.inr hlx)
  have hboth : ∀ {F : Multiset Handle} {g : FrameId}, {ref g} ≤ F →
      {lock (.lineage l)} + {ref g} ≤ F + x := fun hF ↦ by
    rw [add_comm]
    exact add_le_add hF hK
  rw [getPrivateFrameLocked]
  refine (getReadFrameLocked_spec hn).seq (F := 0) hat (add_zero _).symm (by simpa using hK) hok ?_
  rintro ⟨status, v1, snapshot⟩ w1 hat1 - ⟨⟨hok1, hkin1⟩, hinside⟩
  dsimp only at hat1 hok1 hkin1 hinside ⊢
  split_ifs with hstatus
  · exact ⟨hat1.congr (by simp [got, hstatus]), hok1, hkin1⟩
  obtain ⟨haligned, hsize⟩ := hinside (not_not.1 hstatus)
  rw [not_not.1 hstatus, got_ok, add_zero] at hat1
  have hn1 : n ∈ v1.members := hkin1.members ▸ hn
  refine (preserveChildrenLocked_spec haligned _ (children_ok hok1 hn1)).seq (F := {ref snapshot})
    hat1 rfl (hboth le_rfl) hok1 ?_
  rintro ⟨status, v2⟩ w2 hat2 hk2 ⟨hok2, hkin2⟩
  have hsize2 := hok1.noteSize_keeps hn1 hk2 (hl _)
  dsimp only at hat2 hok2 hkin2 ⊢
  split_ifs with hstatus2
  · refine release_spec.seq (F := v2.sites) hat2 (add_comm _ _) zero_le trivial
      fun _ w3 hat3 hk3 _ ↦ ?_
    exact ⟨hat3.congr (by simp [got, hstatus2]), hok2.keeps hk3 (hl _), hkin1.trans hkin2⟩
  have hn2 : n ∈ v2.members := hkin2.members ▸ hn1
  refine (cacheCopyLocked_spec hn2 haligned).seq (F := {ref snapshot}) hat2 rfl (hboth le_rfl)
    ⟨hok2, by rw [hsize2]; exact hsize⟩ ?_
  rintro ⟨status, v3, g⟩ w3 hat3 - ⟨hok3, hkin3, hmem⟩
  dsimp only at hat3 hok3 hkin3 hmem ⊢
  have hwhen : Triple μ (if status = .ok then {ref g} else 0) 0 (fun _ ↦ True)
      (Code.when (status = .ok) (frameRetain g)) (fun _ ↦ got status g) fun _ _ ↦ True := by
    by_cases hs : status = .ok
    · rw [hs]
      exact retain_spec
    · simp only [Code.when, hs, decide_false, Bool.false_eq_true, if_false, got]
      exact .pure rfl fun _ h ↦ h
  refine hwhen.seq (F := v3.sites + {ref snapshot}) hat3 (zero_add _).symm ?_ trivial
    fun _ w4 hat4 hk4 _ ↦ ?_
  · split_ifs with hs
    · exact (Multiset.singleton_le.2 (hmem hs)).trans (le_self_add.trans le_self_add)
    · exact zero_le
  refine release_spec.seq (F := got status g + v3.sites) hat4 (by ac_rfl) zero_le trivial
    fun _ w5 hat5 hk5 _ ↦ ?_
  refine ⟨hat5.congr ?_, (hok3.keeps hk4 (hl _)).keeps hk5 (hl _),
    (hkin1.trans hkin2).trans hkin3⟩
  simp [add_comm]

theorem syncPagesLocked_spec (length : ℕ) (pages : CachedPages) :
    Spends μ pages.sites 0 (fun _ ↦ True) (syncPagesLocked offset length pages) := by
  induction pages with
  | nil => exact .pure rfl fun _ h ↦ h
  | cons q rest ih =>
    obtain ⟨o, g⟩ := q
    have hrest : Spends μ (CachedPages.sites ((o, g) :: rest)) 0 (fun _ ↦ True)
        (syncPagesLocked offset length rest) :=
      ih.borrow (by rw [CachedPages.sites_cons]; exact le_add_left le_rfl)
    rw [syncPagesLocked]
    refine .ite (fun _ ↦ .pure rfl fun _ h ↦ h) fun _ ↦ .ite (fun _ ↦ ?_) fun _ ↦ hrest
    intro s x w hK hat _
    refine (sync_spec (f := g)).seq (F := 0) hat rfl ?_ trivial fun status w1 hat1 _ _ ↦ ?_
    · rw [CachedPages.sites_cons] at hK
      rw [zero_add]
      exact le_self_add.trans hK
    · split_ifs
      · exact ⟨hat1, trivial⟩
      · exact hrest s x w1 hK hat1 trivial

/-! ## Truncation -/

theorem preserveTruncatedPages_spec (newSize preserveEnd visibleLimit : ℕ) (pages : CachedPages)
    (hn : n ∈ v.members) :
    Triple μ {lock (.lineage l)} v.sites (fun s ↦ LineageOk s l v)
      (preserveTruncatedPages n newSize preserveEnd visibleLimit pages v) (fun r ↦ r.2.sites)
      fun r s ↦ LineageOk s l r.2 ∧ v.Kin r.2 := by
  induction pages generalizing v with
  | nil => exact .pure rfl fun _ h ↦ ⟨h, .refl⟩
  | cons q rest ih =>
    obtain ⟨o, g⟩ := q
    rw [preserveTruncatedPages]
    refine .ite (fun _ ↦ .pure rfl fun _ h ↦ ⟨h, .refl⟩) fun _ ↦ .ite (fun _ ↦ ?_) fun _ ↦ ih hn
    intro s x w hK hat hok
    have hl : ∀ F : Multiset Handle, lock (.lineage l) ∈ F + x := fun F ↦
      Multiset.mem_of_le (hK.trans (le_add_left le_rfl)) (by simp)
    refine (getReadFrameLocked_spec hn).seq (F := 0) hat (add_zero _).symm (by simpa using hK)
      hok ?_
    rintro ⟨status, v1, snapshot⟩ w1 hat1 - ⟨⟨hok1, hkin1⟩, hinside⟩
    dsimp only at hat1 hok1 hkin1 hinside ⊢
    split_ifs with hstatus
    · exact ⟨hat1.congr (by simp [got, hstatus]), hok1, hkin1⟩
    rw [not_not.1 hstatus, got_ok, add_zero] at hat1
    have hn1 : n ∈ v1.members := hkin1.members ▸ hn
    refine (preserveChildrenLocked_spec (hinside (not_not.1 hstatus)).1 _
      (children_ok hok1 hn1)).seq (F := {ref snapshot}) hat1 rfl ?_ hok1 ?_
    · rw [add_comm]
      exact add_le_add le_rfl hK
    rintro ⟨status, v2⟩ w2 hat2 - ⟨hok2, hkin2⟩
    dsimp only at hat2 hok2 hkin2 ⊢
    refine release_spec.seq (F := v2.sites) hat2 (add_comm _ _) zero_le trivial
      fun _ w3 hat3 hk3 _ ↦ ?_
    have hok3 := hok2.keeps hk3 (hl _)
    have hkin := hkin1.trans hkin2
    split_ifs
    · exact ⟨hat3.congr (zero_add _), hok3, hkin⟩
    · refine Prog.wp_mono (ih (hkin.members ▸ hn) s x w3 hK (hat3.congr (zero_add _)) hok3) ?_
      rintro r w4 ⟨hat4, hok4, hkin4⟩
      exact ⟨hat4, hok4, hkin.trans hkin4⟩

theorem preserveTruncatedFrom_spec (newSize preserveEnd fuel : ℕ) (owner : NoteId)
    (visibleLimit : ℕ) (hn : n ∈ v.members) :
    Triple μ {lock (.lineage l)} v.sites (fun s ↦ LineageOk s l v)
      (preserveTruncatedFrom n newSize preserveEnd fuel owner visibleLimit v) (fun r ↦ r.2.sites)
      fun r s ↦ LineageOk s l r.2 ∧ v.Kin r.2 := by
  induction fuel generalizing owner visibleLimit v with
  | zero => exact .pure rfl fun _ h ↦ ⟨h, .refl⟩
  | succ fuel ih =>
    rw [preserveTruncatedFrom]
    refine .ite (fun _ ↦ ?_) fun _ ↦ .pure rfl fun _ h ↦ ⟨h, .refl⟩
    intro s x w hK hat hok
    refine (preserveTruncatedPages_spec newSize preserveEnd visibleLimit _ hn).seq (F := 0) hat
      (add_zero _).symm (by simpa using hK) hok ?_
    rintro ⟨status, v1⟩ w1 hat1 - ⟨hok1, hkin1⟩
    dsimp only at hat1 hok1 hkin1 ⊢
    split_ifs
    · exact ⟨hat1.congr (add_zero _), hok1, hkin1⟩
    split
    · exact ⟨hat1.congr (add_zero _), hok1, hkin1⟩
    · refine Prog.wp_mono (ih _ _ (hkin1.members ▸ hn) s x w1 hK (hat1.congr (add_zero _))
        hok1) ?_
      rintro r w2 ⟨hat2, hok2, hkin2⟩
      exact ⟨hat2, hok2, hkin1.trans hkin2⟩

theorem preserveTruncatedChildrenLocked_spec (newSize oldSize : ℕ) (hn : n ∈ v.members) :
    Triple μ {lock (.lineage l)} v.sites (fun s ↦ LineageOk s l v)
      (preserveTruncatedChildrenLocked v n newSize oldSize) (fun r ↦ r.2.sites)
      fun r s ↦ LineageOk s l r.2 ∧ r.2.members = v.members ∧
        (r.1 = .ok → ∀ k ∈ (r.2.body n).children, (r.2.body k).inheritedSize ≤ newSize) := by
  intro s x w hK hat hok
  rw [preserveTruncatedChildrenLocked]
  refine (preserveTruncatedFrom_spec newSize _ (n + 1) n oldSize hn).seq (F := 0) hat
    (add_zero _).symm (by simpa using hK) hok ?_
  rintro ⟨status, v1⟩ w1 hat1 - ⟨hok1, hkin1⟩
  dsimp only at hat1 hok1 hkin1 ⊢
  rw [add_zero] at hat1
  split_ifs with hstatus
  · exact ⟨hat1, hok1, hkin1.members, fun h ↦ absurd h hstatus⟩
  · have hc := clampInherited_clamped newSize (v1.body n).children v1
    refine ⟨hat1.congr hc.sites.symm, hok1.clampInherited _ _, hc.members.trans hkin1.members,
      fun _ k hk ↦ hc.clamped k ?_⟩
    rwa [← hc.tree]

end Note

end MiniMM
