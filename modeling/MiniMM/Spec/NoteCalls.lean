import MiniMM.Spec.NoteLife

/-!
# Specifications of the calls on notes

Each call takes the lock of the lineage of its note, which it needs to exist and no more.
-/

namespace MiniMM

open Handle

variable {μ : Mode} {K : Multiset Handle} {v : Lineage} {n : NoteId} {l : LineageId} {s : Sys}
  {info : NoteInfo}

/-! ## The lock of the lineage of a note -/

theorem lockNote_spec :
    Triple μ 0 0 (NoteIs n info) (.step (.lockLineage info.lineage))
      (fun v ↦ {lock (.lineage info.lineage)} + Lineage.sites v)
      fun v s ↦ LineageOk s info.lineage v ∧ NoteIs n info s ∧ n ∈ v.members := by
  intro s x w hK hat his
  refine lockLineage_spec.tail (F := 0) hat rfl zero_le (his.lineage_lt hat.inv)
    fun v w1 hat1 hk1 hok1 ↦ ?_
  have his1 := his.keeps hk1
  exact ⟨hat1.congr (add_zero _), hok1, his1, (hok1.member n).2 ⟨his1.lt, by rw [his1.eq]⟩⟩

theorem unlockWith_spec {α : Type} (a : α) (G : α → Multiset Handle) :
    Triple μ 0 ({lock (.lineage l)} + v.sites + G a) (fun s ↦ LineageOk s l v)
      (do
        .step (.unlockLineage l v)
        Pure.pure a)
      G fun r _ ↦ r = a := by
  intro s x w hK hat hok
  refine unlockLineage_spec.seq hat rfl zero_le hok fun _ w1 hat1 _ _ ↦ ?_
  exact ⟨hat1.congr (zero_add _), rfl⟩

theorem unlockPlain_spec {α : Type} (a : α) :
    Spends μ 0 ({lock (.lineage l)} + v.sites) (fun s ↦ LineageOk s l v)
      (do
        .step (.unlockLineage l v)
        Pure.pure a) := by
  intro s x w hK hat hok
  refine unlockLineage_spec.first hat hok fun _ w1 hat1 _ _ ↦ ?_
  exact ⟨hat1, trivial⟩

/-! ## Mappings of a note -/

theorem attach_spec {active : ℕ} (hline : info.lineage = l) :
    Triple μ 0 {lock (.lineage l)}
      (fun s ↦ LineageOk s l v ∧ NoteIs n info s ∧ s.activeMappings n = active)
      (.step (.setActiveMappings n (active + 1))) (fun _ ↦ {lock (.lineage l)} + {mapping n})
      fun _ s ↦ LineageOk s l v := by
  have hne : active ≠ active + 1 + 1 := by omega
  refine .step (fun _ _ hk h ↦ ⟨h.1.keeps hk (by simp), h.2.1.keeps hk, ?_⟩)
    (fun {w} _ _ h ↦ ⟨?_, h.2.1.lt, .inl (by rw [h.2.2])⟩) fun {w w' b} hinv hle h hn _ ↦ ?_
  · rw [(hk.noteSize n h.2.1.lt (by rw [h.2.1.eq, hline]; simp)).2]
    exact h.2.2
  · simp [Sys.take, Sys.uses, h.2.1.eq, h.2.2, hline, hne]
  · obtain ⟨woken, hexec⟩ := hn.exec
    obtain ⟨-, hs⟩ := Prog.Outcome.ok.inj hexec
    rw [← hs]
    refine ⟨?_, h.1.congr (fun _ ↦ Iff.rfl) fun _ _ ↦ rfl⟩
    simp [Sys.take, Sys.give, h.2.2, hne]

theorem detach_spec {active : ℕ} (hline : info.lineage = l) :
    Triple μ 0 ({lock (.lineage l)} + {mapping n})
      (fun s ↦ LineageOk s l v ∧ NoteIs n info s ∧ s.activeMappings n = active + 1)
      (.step (.setActiveMappings n active)) (fun _ ↦ {lock (.lineage l)})
      fun _ s ↦ LineageOk s l v := by
  have hne : active ≠ active + 1 + 1 := by omega
  refine .step (fun _ _ hk h ↦ ⟨h.1.keeps hk (by simp), h.2.1.keeps hk, ?_⟩)
    (fun {w} _ _ h ↦ ⟨?_, h.2.1.lt, .inr h.2.2⟩) fun {w w' b} hinv hle h hn _ ↦ ?_
  · rw [(hk.noteSize n h.2.1.lt (by rw [h.2.1.eq, hline]; simp)).2]
    exact h.2.2
  · simp [Sys.take, Sys.uses, h.2.1.eq, h.2.2, hline, add_comm]
  · obtain ⟨woken, hexec⟩ := hn.exec
    obtain ⟨-, hs⟩ := Prog.Outcome.ok.inj hexec
    rw [← hs]
    refine ⟨?_, h.1.congr (fun _ ↦ Iff.rfl) fun _ _ ↦ rfl⟩
    simp [Sys.take, Sys.give, h.2.2, hne]

namespace Note

theorem mappingAttach_spec :
    Triple μ 0 0 (fun s ↦ n < s.nextNote) (mappingAttach n)
      (fun status ↦ if status = .ok then {mapping n} else 0) fun _ _ ↦ True := by
  intro s x w hK hat hlt
  refine noteInfo_spec.next hat ⟨hlt, rfl⟩ ?_
  rintro _ w1 hat1 - ⟨rfl, his1⟩
  refine lockNote_spec.next hat1 his1 ?_
  rintro v w2 hat2 - ⟨hok2, his2, hn⟩
  refine activeMappings_spec.aside hat2 trivial
    fun active w3 hat3 hk3 hactive ↦ ?_
  have hok3 := hok2.keeps hk3 (by simp)
  set l := (w.sys.noteInfo n).lineage
  split_ifs with hmax
  · exact (unlockWith_spec Status.noSpace _).last hat3 (by simp) hok3
  refine (attach_spec (l := l) rfl).seq (F := v.sites) hat3 (by abel) zero_le
    ⟨hok3, his2.keeps hk3, hactive.symm⟩ fun _ w4 hat4 _ hok4 ↦ ?_
  exact (unlockWith_spec Status.ok fun status ↦ if status = .ok then {mapping n} else 0).last hat4
    (by rw [if_pos rfl, add_zero]; ac_rfl) hok4

theorem mappingDetach_spec :
    Spends μ 0 {mapping n} (fun s ↦ n < s.nextNote) (mappingDetach n) := by
  intro s x w hK hat hlt
  refine noteInfo_spec.aside hat ⟨hlt, rfl⟩ ?_
  rintro _ w1 hat1 - ⟨rfl, his1⟩
  refine lockNote_spec.seq hat1 rfl zero_le his1 ?_
  rintro v w2 hat2 - ⟨hok2, his2, hn⟩
  refine activeMappings_spec.aside hat2 trivial
    fun active w3 hat3 hk3 hactive ↦ ?_
  have hok3 := hok2.keeps hk3 (by simp)
  have his3 := his2.keeps hk3
  -- the mapping that is given up here is one of them
  have hpos : 0 < active := by
    rw [hactive]
    exact hat3.inv.pos (x := mapping n) (Multiset.mem_of_le hat3.le (by simp))
  refine (whenAbort_spec _ _).seq hat3 rfl zero_le (fun h ↦ absurd (of_decide_eq_true h) hpos.ne')
    fun _ w4 hat4 hk4 _ ↦ ?_
  have hok4 := hok3.keeps hk4 (by simp)
  have hactive4 : w4.sys.activeMappings n = active - 1 + 1 := by
    rw [(hk4.noteSize n his3.lt (by rw [his3.eq]; simp)).2, ← hactive]
    omega
  set l := (w.sys.noteInfo n).lineage
  refine (detach_spec (l := l) rfl).seq (F := v.sites) hat4 (by abel) zero_le
    ⟨hok4, his3.keeps hk4, hactive4⟩ fun _ w5 hat5 _ hok5 ↦ ?_
  exact unlockLineage_spec.tail (F := 0) hat5 (add_zero _).symm zero_le hok5
    fun _ w6 hat6 _ _ ↦ ⟨hat6.congr (add_zero _), trivial⟩

/-! ## Frames of a note -/

theorem getFrame_spec (offset : ℕ) :
    Triple μ 0 0 (fun s ↦ n < s.nextNote) (getFrame n offset) (fun r ↦ got r.1 r.2)
      fun _ _ ↦ True := by
  intro s x w hK hat hlt
  refine noteInfo_spec.next hat ⟨hlt, rfl⟩ ?_
  rintro _ w1 hat1 - ⟨rfl, his1⟩
  refine lockNote_spec.next hat1 his1 ?_
  rintro v w2 hat2 - ⟨hok2, -, hn⟩
  set l := (w.sys.noteInfo n).lineage
  refine (getPrivateFrameLocked_spec hn).seq (F := {lock (.lineage l)}) hat2 (by ac_rfl)
    le_self_add hok2 ?_
  rintro ⟨status, v3, f⟩ w3 hat3 - ⟨hok3, -⟩
  exact (unlockWith_spec (status, f) fun r ↦ got r.1 r.2).last hat3 (by ac_rfl) hok3

theorem peekFrom_mem (hok : LineageOk s l v) {offset fuel : ℕ} (hn : n ∈ v.members) {f : FrameId}
    (h : peekFrom offset fuel v n = some f) : ref f ∈ v.sites := by
  induction fuel generalizing n with
  | zero => cases h
  | succ fuel ih =>
    rw [peekFrom] at h
    split at h
    · rename_i g hg
      cases h
      exact Multiset.mem_of_le (Lineage.pages_sites_le hn)
        (CachedPages.ref_mem_sites (CachedPages.mem_of_find hg))
    · split at h
      · cases h
      · rename_i parent hparent
        split_ifs at h
        exact ih (hok.parent n hn parent hparent).2.1 h

theorem peekFrame_spec (offset : ℕ) :
    Triple μ 0 0 (fun s ↦ n < s.nextNote) (peekFrame n offset) (fun r ↦ got r.1 r.2)
      fun _ _ ↦ True := by
  intro s x w hK hat hlt
  rw [peekFrame]
  by_cases haligned : offset % pageSize ≠ 0
  · rw [if_pos haligned]
    exact ⟨hat, trivial⟩
  rw [if_neg haligned]
  refine noteInfo_spec.next hat ⟨hlt, rfl⟩ ?_
  rintro _ w1 hat1 - ⟨rfl, his1⟩
  refine lockNote_spec.next hat1 his1 ?_
  rintro v w2 hat2 - ⟨hok2, -, hn⟩
  refine loadSize_spec.aside hat2 trivial fun size w3 hat3 hk3 _ ↦ ?_
  have hok3 := hok2.keeps hk3 (by simp)
  set l := (w.sys.noteInfo n).lineage
  split_ifs with hrange
  · exact (unlockWith_spec (Status.invalidArgument, 0) fun r ↦ got r.1 r.2).last hat3
      (by simp [got]) hok3
  split
  · exact (unlockWith_spec (Status.notFound, 0) fun r ↦ got r.1 r.2).last hat3 (by simp [got]) hok3
  · rename_i f hf
    refine retain_spec.seq (F := {lock (.lineage l)} + v.sites) hat3 (by simp) ?_ trivial
      fun _ w4 hat4 hk4 _ ↦ ?_
    · exact (Multiset.singleton_le.2 (peekFrom_mem hok3 hn hf)).trans
        ((le_add_left le_rfl).trans le_self_add)
    · exact (unlockWith_spec (Status.ok, f) fun r ↦ got r.1 r.2).last hat4 (by rw [got_ok]; ac_rfl)
        (hok3.keeps hk4 (by simp))

/-! ## Writing back -/

theorem syncAll_spec (offset length : ℕ) (file : FileId) (hn : n ∈ v.members) :
    Triple μ 0 ({lock (.lineage l)} + v.sites) (fun s ↦ LineageOk s l v)
      (do
        let status ← syncPagesLocked offset length (v.pages n)
        if status ≠ .ok then do
          .step (.unlockLineage l v)
          Pure.pure status
        else do
          let status ← Code.store (.fileBackingSync file)
          .step (.unlockLineage l v)
          Pure.pure status)
      (fun _ ↦ 0) fun _ _ ↦ True := by
  intro s x w hK hat hok
  refine (syncPagesLocked_spec length (v.pages n)).seq hat (zero_add _).symm
    ((Lineage.pages_sites_le hn).trans ((le_add_left le_rfl).trans le_self_add)) trivial
    fun status w1 hat1 hk1 _ ↦ ?_
  have hok1 := hok.keeps hk1 (by simp)
  rw [zero_add] at hat1
  split_ifs
  · exact unlockPlain_spec status s x w1 hK hat1 hok1
  refine (store_spec (o := .fileBackingSync file) (K := 0) fun _ _ ↦ nofun).aside hat1 trivial
    fun status w2 hat2 hk2 _ ↦ ?_
  exact unlockPlain_spec status s x w2 hK (hat2.congr (zero_add _)) (hok1.keeps hk2 (by simp))

theorem flush_spec :
    Spends μ 0 0 (fun s ↦ n < s.nextNote) (flush n) := by
  intro s x w hK hat hlt
  refine noteInfo_spec.next hat ⟨hlt, rfl⟩ ?_
  rintro _ w1 hat1 - ⟨rfl, his1⟩
  refine lockNote_spec.next hat1 his1 ?_
  rintro v w2 hat2 - ⟨hok2, -, hn⟩
  refine loadSize_spec.aside hat2 trivial fun size w3 hat3 hk3 _ ↦ ?_
  exact syncAll_spec 0 size _ hn s x w3 hK (hat3.congr (by simp)) (hok2.keeps hk3 (by simp))

theorem syncRange_spec (offset length : ℕ) :
    Spends μ 0 0 (fun s ↦ n < s.nextNote) (syncRange n offset length) := by
  intro s x w hK hat hlt
  rw [syncRange]
  by_cases hinvalid : length = 0 ∨ offset % pageSize ≠ 0 ∨ length % pageSize ≠ 0
  · rw [if_pos hinvalid]
    exact ⟨hat, trivial⟩
  rw [if_neg hinvalid]
  refine noteInfo_spec.next hat ⟨hlt, rfl⟩ ?_
  rintro _ w1 hat1 - ⟨rfl, his1⟩
  refine lockNote_spec.next hat1 his1 ?_
  rintro v w2 hat2 - ⟨hok2, -, hn⟩
  refine loadSize_spec.aside hat2 trivial fun size w3 hat3 hk3 _ ↦ ?_
  have hok3 := hok2.keeps hk3 (by simp)
  by_cases hrange : offset > size ∨ length > size - offset
  · rw [if_pos hrange]
    exact unlockPlain_spec _ s x w3 hK (hat3.congr (by simp)) hok3
  · rw [if_neg hrange]
    exact syncAll_spec offset length _ hn s x w3 hK (hat3.congr (by simp)) hok3

/-! ## Reading and writing -/

theorem preadLoop_spec (offset length fuel : ℕ) (bytes : List UInt8) (hn : n ∈ v.members) :
    Triple μ {lock (.lineage l)} v.sites (fun s ↦ LineageOk s l v)
      (preadLoop n offset length fuel v bytes) (fun r ↦ r.2.1.sites)
      fun r s ↦ LineageOk s l r.2.1 := by
  induction fuel generalizing v bytes with
  | zero => exact .pure rfl fun _ h ↦ h
  | succ fuel ih =>
    rw [preadLoop]
    refine .ite (fun _ ↦ ?_) fun _ ↦ .pure rfl fun _ h ↦ h
    intro s x w hK hat hok
    have hl : ∀ F : Multiset Handle, lock (.lineage l) ∈ F + x := fun F ↦
      Multiset.mem_of_le (hK.trans (le_add_left le_rfl)) (by simp)
    refine (getReadFrameLocked_spec hn).seq (F := 0) hat (add_zero _).symm (by simpa using hK)
      hok ?_
    rintro ⟨status, v1, f⟩ w1 hat1 - ⟨⟨hok1, hkin1⟩, -⟩
    dsimp only at hat1 hok1 hkin1 ⊢
    split_ifs with hstatus
    · exact ⟨hat1.congr (by simp [got, hstatus]), hok1⟩
    rw [not_not.1 hstatus, got_ok, add_zero] at hat1
    refine (frameRead_spec _ _).seq (F := v1.sites + {ref f}) hat1 (zero_add _).symm
      ((le_add_left le_rfl).trans le_self_add) trivial ?_
    rintro ⟨status, data⟩ w2 hat2 hk2 -
    refine MiniMM.release_spec.seq (F := v1.sites) hat2 (by rw [zero_add, add_comm])
      zero_le trivial fun _ w3 hat3 hk3 _ ↦ ?_
    have hok3 := (hok1.keeps hk2 (hl _)).keeps hk3 (hl _)
    dsimp only
    split_ifs
    · exact ⟨hat3.congr (zero_add _), hok3⟩
    · exact ih _ (hkin1.members ▸ hn) s x w3 hK (hat3.congr (zero_add _)) hok3

theorem pwriteLoop_spec (offset : ℕ) (source : List UInt8) (fuel completed : ℕ)
    (hn : n ∈ v.members) :
    Triple μ {lock (.lineage l)} v.sites (fun s ↦ LineageOk s l v)
      (pwriteLoop n offset source fuel v completed) (fun r ↦ r.2.1.sites)
      fun r s ↦ LineageOk s l r.2.1 := by
  induction fuel generalizing v completed with
  | zero => exact .pure rfl fun _ h ↦ h
  | succ fuel ih =>
    rw [pwriteLoop]
    refine .ite (fun _ ↦ ?_) fun _ ↦ .pure rfl fun _ h ↦ h
    intro s x w hK hat hok
    have hl : ∀ F : Multiset Handle, lock (.lineage l) ∈ F + x := fun F ↦
      Multiset.mem_of_le (hK.trans (le_add_left le_rfl)) (by simp)
    refine (getPrivateFrameLocked_spec hn).seq (F := 0) hat (add_zero _).symm
      (by simpa using hK) hok ?_
    rintro ⟨status, v1, f⟩ w1 hat1 - ⟨hok1, hkin1⟩
    dsimp only at hat1 hok1 hkin1 ⊢
    split_ifs with hstatus
    · exact ⟨hat1.congr (by simp [got, hstatus]), hok1⟩
    rw [not_not.1 hstatus, got_ok, add_zero] at hat1
    refine (frameWrite_spec _ _).seq (F := v1.sites + {ref f}) hat1 (zero_add _).symm
      ((le_add_left le_rfl).trans le_self_add) trivial fun status w2 hat2 hk2 _ ↦ ?_
    refine MiniMM.release_spec.seq (F := v1.sites) hat2 (by rw [zero_add, add_comm])
      zero_le trivial fun _ w3 hat3 hk3 _ ↦ ?_
    have hok3 := (hok1.keeps hk2 (hl _)).keeps hk3 (hl _)
    split_ifs
    · exact ⟨hat3.congr (zero_add _), hok3⟩
    · exact ih _ (hkin1.members ▸ hn) s x w3 hK (hat3.congr (zero_add _)) hok3

theorem validateIo_spec (offset length : ℕ) (right : NoteRights → Bool) :
    Spends μ 0 0 (fun _ ↦ True) (validateIo n offset length right) := by
  intro s x w hK hat _
  refine noteInfo_any.next hat trivial fun i w1 hat1 _ _ ↦ ?_
  split_ifs
  · exact ⟨hat1, trivial⟩
  · exact loadSize_spec.next hat1 trivial
      fun _ w2 hat2 _ _ ↦ ⟨hat2, trivial⟩

theorem pread_spec (offset length : ℕ) :
    Spends μ 0 0 (fun s ↦ n < s.nextNote) (pread n offset length) := by
  intro s x w hK hat hlt
  refine (validateIo_spec _ _ _).next hat trivial fun status w0 hat0 hk0 _ ↦ ?_
  by_cases hstatus : status ≠ .ok ∨ length = 0
  · rw [if_pos hstatus]
    exact ⟨hat0, trivial⟩
  rw [if_neg hstatus]
  refine noteInfo_spec.next hat0 ⟨hlt.trans_le hk0.nextNote, rfl⟩ ?_
  rintro _ w1 hat1 - ⟨rfl, his1⟩
  refine lockNote_spec.next hat1 his1 ?_
  rintro v w2 hat2 - ⟨hok2, -, hn⟩
  refine loadSize_spec.aside hat2 trivial fun size w3 hat3 hk3 _ ↦ ?_
  have hok3 := hok2.keeps hk3 (by simp)
  set l := (w0.sys.noteInfo n).lineage
  split_ifs
  · exact unlockPlain_spec _ s x w3 hK (hat3.congr (by simp)) hok3
  refine (preadLoop_spec offset length length [] hn).seq (F := {lock (.lineage l)}) hat3
    (by rw [zero_add, add_zero, add_comm]) le_self_add hok3 ?_
  rintro ⟨status, v4, bytes⟩ w4 hat4 - hok4
  exact unlockPlain_spec _ s x w4 hK (hat4.congr (add_comm _ _)) hok4

theorem pwrite_spec (offset : ℕ) (source : List UInt8) :
    Spends μ 0 0 (fun s ↦ n < s.nextNote) (pwrite n offset source) := by
  intro s x w hK hat hlt
  refine (validateIo_spec _ _ _).next hat trivial fun status w0 hat0 hk0 _ ↦ ?_
  by_cases hstatus : status ≠ .ok ∨ source.length = 0
  · rw [if_pos hstatus]
    exact ⟨hat0, trivial⟩
  rw [if_neg hstatus]
  refine noteInfo_spec.next hat0 ⟨hlt.trans_le hk0.nextNote, rfl⟩ ?_
  rintro _ w1 hat1 - ⟨rfl, his1⟩
  refine lockNote_spec.next hat1 his1 ?_
  rintro v w2 hat2 - ⟨hok2, -, hn⟩
  refine loadSize_spec.aside hat2 trivial fun size w3 hat3 hk3 _ ↦ ?_
  have hok3 := hok2.keeps hk3 (by simp)
  set l := (w0.sys.noteInfo n).lineage
  split_ifs
  · exact unlockPlain_spec _ s x w3 hK (hat3.congr (by simp)) hok3
  refine (pwriteLoop_spec offset source source.length 0 hn).seq (F := {lock (.lineage l)}) hat3
    (by rw [zero_add, add_zero, add_comm]) le_self_add hok3 ?_
  rintro ⟨status, v4, completed⟩ w4 hat4 - hok4
  exact unlockPlain_spec _ s x w4 hK (hat4.congr (add_comm _ _)) hok4

theorem pedit_spec (offset : ℕ) (source : List UInt8) :
    Spends μ 0 0 (fun s ↦ n < s.nextNote) (pedit n offset source) := by
  intro s x w hK hat hlt
  refine noteInfo_any.next hat trivial fun i w1 hat1 hk1 _ ↦ ?_
  split_ifs
  · exact ⟨hat1, trivial⟩
  · exact pwrite_spec offset source s x w1 hK hat1 (hlt.trans_le hk1.nextNote)

/-! ## Resizing -/

end Note

theorem LineageOk.setSize (h : LineageOk s l v) {s' : Sys} {size : ℕ} (hsize : size % pageSize = 0)
    (hown : (v.body n).inheritedSize ≤ size)
    (hchildren : ∀ k ∈ (v.body n).children, (v.body k).inheritedSize ≤ size)
    (hpages : ∀ q ∈ (v.body n).pages, q.1 + pageSize ≤ size)
    (hnext : s'.nextNote = s.nextNote) (hinfo : s'.noteInfo = s.noteInfo)
    (hsizes : s'.noteSize = Function.update s.noteSize n size) : LineageOk s' l v := by
  refine ⟨h.nodup, fun k ↦ ?_, fun k hk p hp ↦ ?_, h.child, h.childrenNodup, h.sorted,
    fun k hk q hq ↦ ?_, fun k hk ↦ ?_⟩
  · rw [hnext, hinfo]
    exact h.member k
  · obtain ⟨h1, h2, h3, h4, h5⟩ := h.parent k hk p hp
    rw [hsizes]
    refine ⟨h1, h2, h3, ?_, ?_⟩
    · by_cases hkn : k = n
      · subst hkn
        rwa [Function.update_self]
      · rwa [Function.update_of_ne hkn]
    · by_cases hpn : p = n
      · subst hpn
        rw [Function.update_self]
        exact hchildren k h3
      · rwa [Function.update_of_ne hpn]
  · obtain ⟨h1, h2⟩ := h.page k hk q hq
    rw [hsizes]
    refine ⟨h1, ?_⟩
    by_cases hkn : k = n
    · subst hkn
      rw [Function.update_self]
      exact hpages q hq
    · rwa [Function.update_of_ne hkn]
  · rw [hsizes]
    by_cases hkn : k = n
    · subst hkn
      rwa [Function.update_self]
    · rw [Function.update_of_ne hkn]
      exact h.size k hk

theorem setNoteSize_spec {size : ℕ} (hsize : size % pageSize = 0) (hline : info.lineage = l)
    (hown : (v.body n).inheritedSize ≤ size)
    (hchildren : ∀ k ∈ (v.body n).children, (v.body k).inheritedSize ≤ size)
    (hpages : ∀ q ∈ (v.body n).pages, q.1 + pageSize ≤ size) :
    Triple μ 0 {lock (.lineage l)} (fun s ↦ LineageOk s l v ∧ NoteIs n info s)
      (.step (.setNoteSize n size)) (fun _ ↦ {lock (.lineage l)}) fun _ s ↦ LineageOk s l v := by
  refine .step (fun _ _ hk h ↦ ⟨h.1.keeps hk (by simp), h.2.keeps hk⟩)
    (fun {w} _ _ h ↦ ⟨?_, trivial⟩) fun {w w' b} _ _ h hn _ ↦ ⟨rfl, ?_⟩
  · simp [Sys.take, Sys.uses, h.2.eq, hline]
  · obtain ⟨woken, hexec⟩ := hn.exec
    obtain ⟨-, hs⟩ := Prog.Outcome.ok.inj hexec
    rw [← hs]
    exact h.1.setSize hsize hown hchildren hpages rfl rfl rfl

namespace CachedPages

theorem Sorted.detachFrom {pages : CachedPages} (h : pages.Sorted) (offset : ℕ) :
    Sorted (CachedPages.detachFrom offset pages).1 := by
  have := h
  rw [← detachFrom_append offset pages] at this
  exact (List.pairwise_append.1 this).1

theorem mem_of_mem_detachFrom {pages : CachedPages} {offset : ℕ} {q : ℕ × FrameId}
    (h : q ∈ (detachFrom offset pages).1) : q ∈ pages := by
  rw [← detachFrom_append offset pages]
  exact List.mem_append_left _ h

end CachedPages

namespace Note

theorem resizePrepare_spec (size oldSize : ℕ) (hn : n ∈ v.members) :
    Triple μ {lock (.lineage l)} v.sites (fun s ↦ LineageOk s l v)
      (resize.resizePrepare v n size oldSize) (fun r ↦ r.2.sites)
      fun r s ↦ LineageOk s l r.2 ∧ r.2.members = v.members ∧ (r.1 = .ok → size < oldSize →
        ∀ k ∈ (r.2.body n).children, (r.2.body k).inheritedSize ≤ size) := by
  rw [resize.resizePrepare]
  refine .ite (fun _ ↦ ?_) fun hge ↦ .pure rfl fun _ h ↦ ⟨h, rfl, fun _ hlt ↦ absurd hlt hge⟩
  intro s x w hK hat hok
  have hl : ∀ F : Multiset Handle, lock (.lineage l) ∈ F + x := fun F ↦
    Multiset.mem_of_le (hK.trans (le_add_left le_rfl)) (by simp)
  refine (preserveTruncatedChildrenLocked_spec size oldSize hn).seq (F := 0) hat (add_zero _).symm
    (by simpa using hK) hok ?_
  rintro ⟨status, v1⟩ w1 hat1 - ⟨hok1, hmembers, hchildren⟩
  dsimp only at hat1 hok1 hmembers hchildren ⊢
  rw [add_zero] at hat1
  split_ifs with hstatus
  · exact ⟨hat1, hok1, hmembers, fun h ↦ absurd h hstatus⟩
  refine (syncPagesLocked_spec oldSize (v1.pages n)).seq hat1 (zero_add _).symm
    ((Lineage.pages_sites_le (hmembers ▸ hn)).trans le_self_add) trivial
    fun status w2 hat2 hk2 _ ↦ ?_
  exact ⟨hat2.congr (zero_add _), hok1.keeps hk2 (hl _), hmembers,
    fun _ _ ↦ hchildren (not_not.1 hstatus)⟩

theorem resizeFile_spec (file : FileId) (size oldSize : ℕ) :
    Spends μ 0 0 (fun _ ↦ True) (resize.resizeFile file size oldSize) :=
  .ite (fun _ ↦ store_spec (o := .fileBackingResize file size) fun _ _ ↦ nofun)
    fun _ ↦ .pure rfl fun _ h ↦ h

/-- The last part of `minimm_note_resize`: the new size, and what is left of the pages. -/
theorem resizeCommit_spec {size oldSize : ℕ} (hsize : size % pageSize = 0)
    (hline : info.lineage = l) (hn : n ∈ v.members)
    (hchildren : size < oldSize →
      ∀ k ∈ (v.body n).children, (v.body k).inheritedSize ≤ size) :
    Triple μ 0 ({lock (.lineage l)} + v.sites)
      (fun s ↦ LineageOk s l v ∧ NoteIs n info s ∧ s.noteSize n = oldSize)
      (do
        .step (.setNoteSize n size)
        let v := v.setBody n { v.body n with inheritedSize := min (v.body n).inheritedSize size }
        let (kept, detached) :=
          if size < oldSize then (v.pages n).detachFrom size else (v.pages n, [])
        .step (.unlockLineage l (v.setPages n kept))
        detached.release
        Pure.pure Status.ok)
      (fun _ ↦ 0) fun _ _ ↦ True := by
  intro s x w hK hat ⟨hok, his, hold⟩
  set v1 := v.setBody n { v.body n with inheritedSize := min (v.body n).inheritedSize size }
    with hv1
  have hok1 : LineageOk w.sys l v1 := hok.setInherited (min_le_left _ _)
  have hpages1 : v1.pages n = v.pages n := by simp [hv1, Lineage.pages]
  have hsites1 : v1.sites = v.sites := Lineage.sites_setInherited _
  obtain ⟨cut, hcut⟩ : ∃ cut : CachedPages × CachedPages, cut =
    if size < oldSize then (v1.pages n).detachFrom size else (v1.pages n, []) := ⟨_, rfl⟩
  have hnpages := hok.page n hn
  -- what stays are pages of the note that fit in the new size
  have hkept : cut.1.Sorted ∧ cut.1 ++ cut.2 = v.pages n ∧ ∀ q ∈ cut.1, q ∈ v.pages n ∧
      q.1 + pageSize ≤ size := by
    rw [hcut, hpages1]
    split_ifs with hlt
    · refine ⟨(hok.sorted n hn).detachFrom size, CachedPages.detachFrom_append _ _,
        fun q hq ↦ ⟨CachedPages.mem_of_mem_detachFrom hq, ?_⟩⟩
      have h1 := CachedPages.lt_of_mem_detachFrom hq
      have h2 := (hnpages q (CachedPages.mem_of_mem_detachFrom hq)).1
      simp only [pageSize] at *
      omega
    · refine ⟨hok.sorted n hn, List.append_nil _, fun q hq ↦ ⟨hq, ?_⟩⟩
      have h1 := (hnpages q hq).2
      omega
  obtain ⟨hsorted, happend, hin⟩ := hkept
  set v2 := v1.setPages n cut.1 with hv2
  have hok2 : LineageOk w.sys l v2 :=
    hok1.setPages hsorted fun q hq ↦ hnpages q (hin q hq).1
  have hsites2 : v2.sites + cut.2.sites = v.sites := by
    have h := Lineage.sites_setPages (v := v1) hok1.nodup hn cut.1
    rw [hpages1, hsites1, ← happend, CachedPages.sites_append] at h
    refine add_right_cancel (b := cut.1.sites) (Eq.trans ?_ h)
    rw [hv2]
    ac_rfl
  have hkin : v1.Kin v2 := .setPages _
  have hinherited : ∀ k, (v2.body k).inheritedSize ≤ (v.body k).inheritedSize := by
    intro k
    rw [hkin.inherited, hv1]
    by_cases hkn : k = n
    · subst hkn
      simp
    · rw [Lineage.body_setBody_of_ne hkn]
  have hown2 : (v2.body n).inheritedSize ≤ size := by
    rw [hkin.inherited, hv1, Lineage.body_setBody_self]
    exact min_le_right _ _
  have hchildren2 : ∀ k ∈ (v2.body n).children, (v2.body k).inheritedSize ≤ size := by
    intro k hk
    rw [hkin.children, hv1, Lineage.body_setBody_self] at hk
    refine (hinherited k).trans ?_
    by_cases hlt : size < oldSize
    · exact hchildren hlt k hk
    · obtain ⟨hkm, hkp⟩ := hok.child n hn k hk
      have := (hok.parent k hkm n hkp).2.2.2.2
      omega
  refine (setNoteSize_spec (v := v2) hsize hline hown2 hchildren2 fun q hq ↦ ?_).seq
    (F := v.sites) hat rfl zero_le ⟨hok2, his⟩ fun _ w1 hat1 _ hok3 ↦ ?_
  · have : q ∈ v2.pages n := hq
    rw [hv2, Lineage.pages_setPages_self] at this
    exact (hin q this).2
  dsimp only
  rw [← hcut]
  refine unlockLineage_spec.seq (F := cut.2.sites) hat1 ?_ zero_le hok3 fun _ w2 hat2 _ _ ↦ ?_
  · rw [← hsites2, add_assoc]
  refine (CachedPages.release_spec cut.2).seq (F := 0) hat2 (by simp) zero_le trivial
    fun _ w3 hat3 _ _ ↦ ?_
  exact ⟨hat3, trivial⟩

theorem resize_spec (size : ℕ) :
    Spends μ 0 0 (fun s ↦ n < s.nextNote) (resize n size) := by
  intro s x w hK hat hlt
  rw [resize]
  by_cases hvalid : noteSizeIsValid size = false
  · rw [if_pos hvalid]
    exact ⟨hat, trivial⟩
  rw [if_neg hvalid]
  refine noteInfo_spec.next hat ⟨hlt, rfl⟩ ?_
  rintro _ w1 hat1 - ⟨rfl, his1⟩
  by_cases hright : (w.sys.noteInfo n).rights.resize = false
  · rw [if_pos hright]
    exact ⟨hat1, trivial⟩
  rw [if_neg hright]
  refine lockNote_spec.next hat1 his1 ?_
  rintro v w2 hat2 - ⟨hok2, his2, hn⟩
  refine loadSize_spec.aside hat2 trivial
    fun oldSize w3 hat3 hk3 hold3 ↦ ?_
  refine activeMappings_spec.seq hat3 rfl zero_le trivial fun active w4 hat4 hk4 _ ↦ ?_
  have hok4 := (hok2.keeps hk3 (by simp)).keeps hk4 (by simp)
  have hold4 : w4.sys.noteSize n = oldSize := by
    rw [(hok2.keeps hk3 (by simp)).noteSize_keeps hn hk4 (by simp), hold3]
  have his4 := (his2.keeps hk3).keeps hk4
  rw [zero_add, add_zero] at hat4
  set l := (w.sys.noteInfo n).lineage with hl
  by_cases hbusy : active ≠ 0 ∧ size < oldSize
  · rw [if_pos hbusy]
    exact unlockPlain_spec _ s x w4 hK hat4 hok4
  rw [if_neg hbusy]
  refine (resizePrepare_spec size oldSize hn).seq (F := {lock (.lineage l)}) hat4 (add_comm _ _)
    le_self_add hok4 ?_
  rintro ⟨status, v5⟩ w5 hat5 hk5 ⟨hok5, hmembers, hchildren⟩
  dsimp only at hat5 hok5 hmembers hchildren ⊢
  rw [add_comm] at hat5
  have hold5 : w5.sys.noteSize n = oldSize := by
    rw [hok4.noteSize_keeps hn hk5 (by simp), hold4]
  have hn5 : n ∈ v5.members := hmembers ▸ hn
  by_cases hstatus : status ≠ .ok
  · rw [if_pos hstatus]
    exact unlockPlain_spec _ s x w5 hK hat5 hok5
  rw [if_neg hstatus]
  refine (resizeFile_spec _ size oldSize).aside hat5 trivial
    fun status6 w6 hat6 hk6 _ ↦ ?_
  have hok6 := hok5.keeps hk6 (by simp)
  rw [zero_add] at hat6
  by_cases hstatus6 : status6 ≠ .ok
  · rw [if_pos hstatus6]
    exact unlockPlain_spec _ s x w6 hK hat6 hok6
  rw [if_neg hstatus6]
  have hsize : size % pageSize = 0 := sizeIsValid (by simpa using hvalid)
  refine resizeCommit_spec hsize hl.symm hn5 (hchildren (not_not.1 hstatus)) s x w6 hK hat6
    ⟨hok6, (his4.keeps hk5).keeps hk6, ?_⟩
  rw [hok5.noteSize_keeps hn5 hk6 (by simp), hold5]

/-! ## Copying -/

theorem copyExternalLocked_spec {u : Lineage} {k : LineageId} {source copy : NoteId} (pages : ℕ)
    {offset : ℕ} (hsource : source ∈ v.members) (hcopy : copy ∈ u.members) :
    Triple μ ({lock (.lineage l)} + {lock (.lineage k)}) (v.sites + u.sites)
      (fun s ↦ LineageOk s l v ∧ LineageOk s k u ∧ offset + pages * pageSize ≤ s.noteSize copy)
      (copyExternalLocked source copy pages offset v u) (fun r ↦ r.2.1.sites + r.2.2.sites)
      fun r s ↦ LineageOk s l r.2.1 ∧ LineageOk s k r.2.2 := by
  induction pages generalizing offset v u with
  | zero => exact .pure rfl fun _ h ↦ ⟨h.1, h.2.1⟩
  | succ pages ih =>
    intro s x w hK hat ⟨hok, huk, hsize⟩
    have hl : ∀ F : Multiset Handle, lock (.lineage l) ∈ F + x := fun F ↦
      Multiset.mem_of_le (hK.trans (le_add_left le_rfl)) (by simp)
    have hlk : ∀ F : Multiset Handle, lock (.lineage k) ∈ F + x := fun F ↦
      Multiset.mem_of_le (hK.trans (le_add_left le_rfl)) (by simp)
    rw [copyExternalLocked]
    refine (getReadFrameLocked_spec hsource).seq (F := u.sites) hat rfl
      (Multiset.singleton_le.2 (hl _)) hok ?_
    rintro ⟨status, v1, f⟩ w1 hat1 hk1 ⟨⟨hok1, hkin1⟩, hinside⟩
    dsimp only at hat1 hok1 hkin1 hinside ⊢
    have huk1 := huk.keeps hk1 (hlk _)
    have hsize1 := huk.noteSize_keeps hcopy hk1 (hlk _)
    split_ifs with hstatus
    · exact ⟨hat1.congr (by simp [got, hstatus]), hok1, huk1⟩
    rw [not_not.1 hstatus, got_ok] at hat1
    have hroom : offset + pageSize ≤ w1.sys.noteSize copy := by
      rw [hsize1]
      refine le_trans ?_ hsize
      rw [Nat.succ_mul]
      omega
    refine (cacheCopyLocked_spec hcopy (hinside (not_not.1 hstatus)).1).seq
      (F := v1.sites + {ref f}) hat1 (by ac_rfl) ?_ ⟨huk1, hroom⟩ ?_
    · have h1 := add_le_add (le_add_left (a := {ref f}) (b := v1.sites) le_rfl)
        (Multiset.singleton_le.2 (by simpa using hlk 0))
      rw [add_comm]
      exact h1
    rintro ⟨status2, u2, g⟩ w2 hat2 hk2 ⟨huk2, hkin2, -⟩
    dsimp only at hat2 huk2 hkin2 ⊢
    refine MiniMM.release_spec.seq (F := v1.sites + u2.sites) hat2 (by ac_rfl) zero_le trivial
      fun _ w3 hat3 hk3 _ ↦ ?_
    have hok3 := (hok1.keeps hk2 (hl _)).keeps hk3 (hl _)
    have huk3 := huk2.keeps hk3 (hlk _)
    have hcopy2 : copy ∈ u2.members := hkin2.members ▸ hcopy
    split_ifs
    · exact ⟨hat3.congr (zero_add _), hok3, huk3⟩
    · refine ih (hkin1.members ▸ hsource) hcopy2 s x w3 hK (hat3.congr (zero_add _))
        ⟨hok3, huk3, ?_⟩
      rw [huk2.noteSize_keeps hcopy2 hk3 (hlk _), huk1.noteSize_keeps hcopy hk2 (hlk _), hsize1]
      refine le_trans ?_ hsize
      rw [Nat.succ_mul]
      omega

end Note

/-! ### A child in the lineage of its source -/

namespace Lineage

/-- The lineage after `minimm_note_copy` has linked the copy to its source. -/
def withChild (v : Lineage) (source n : NoteId) (size : ℕ) : Lineage :=
  (v.addMember n ⟨[], some source, [], size⟩).setBody source
    { (v.addMember n ⟨[], some source, [], size⟩).body source with
      children := n :: ((v.addMember n ⟨[], some source, [], size⟩).body source).children }

variable {source : NoteId} {size : ℕ}

theorem withChild_members : (v.withChild source n size).members = n :: v.members := rfl

theorem withChild_body_new (hne : n ≠ source) :
    (v.withChild source n size).body n = ⟨[], some source, [], size⟩ := by
  rw [withChild, body_setBody_of_ne hne]
  exact Function.update_self _ _ _

theorem withChild_body_source (hne : n ≠ source) : (v.withChild source n size).body source =
    { v.body source with children := n :: (v.body source).children } := by
  have h : (v.addMember n ⟨[], some source, [], size⟩).body source = v.body source :=
    Function.update_of_ne hne.symm _ _
  rw [withChild, body_setBody_self, h]

theorem withChild_body_of_ne {k : NoteId} (hn : k ≠ n) (hs : k ≠ source) :
    (v.withChild source n size).body k = v.body k := by
  rw [withChild, body_setBody_of_ne hs]
  exact Function.update_of_ne hn _ _

theorem sites_withChild (hn : n ∉ v.members) (hs : source ∈ v.members) :
    (v.withChild source n size).sites = {note source} + v.sites := by
  have hne : n ≠ source := fun h ↦ hn (h ▸ hs)
  rw [sites, withChild_members, List.map_cons, List.sum_cons, withChild_body_new hne]
  refine congrArg₂ (· + ·) ?_ (congrArg List.sum (List.map_congr_left fun k hk ↦ ?_))
  · simp [NoteBody.sites, parentSites]
  · have hkn : k ≠ n := fun h ↦ hn (h ▸ hk)
    by_cases hks : k = source
    · subst hks
      rw [withChild_body_source hkn.symm]
      rfl
    · rw [withChild_body_of_ne hkn hks]

end Lineage

theorem Born.withChild {sizes : NoteId → ℕ} {source : NoteId} {size : ℕ}
    (h : Born l v sizes n info size s) (hsource : source ∈ v.members)
    (hsize : size ≤ s.noteSize source) :
    LineageOk s l (v.withChild source n size) := by
  have hok := h.ok
  have hlt : ∀ k ∈ v.members, k ≠ n := fun k hk ↦ (h.newest k hk).ne
  have hns : n ≠ source := (hlt source hsource).symm
  have hnew : (v.withChild source n size).body n = ⟨[], some source, [], size⟩ :=
    Lineage.withChild_body_new hns
  have hsrc : (v.withChild source n size).body source =
      { v.body source with children := n :: (v.body source).children } :=
    Lineage.withChild_body_source hns
  -- the old notes keep everything but the children of the source
  have hold : ∀ k ∈ v.members, ∃ c, (v.withChild source n size).body k =
      { v.body k with children := c } ∧ (∀ j, j ∈ c ↔ j ∈ (v.body k).children ∨
        j = n ∧ k = source) ∧ ((v.body k).children.Nodup → n ∉ (v.body k).children → c.Nodup) := by
    intro k hk
    by_cases hks : k = source
    · subst hks
      refine ⟨_, hsrc, fun j ↦ ?_, fun h1 h2 ↦ List.nodup_cons.2 ⟨h2, h1⟩⟩
      rw [List.mem_cons]
      tauto
    · refine ⟨(v.body k).children, Lineage.withChild_body_of_ne (hlt k hk) hks, fun j ↦ ?_,
        fun h1 _ ↦ h1⟩
      tauto
  have hadd : ∀ k ∈ v.members, (v.addMember n Lineage.newBody).body k = v.body k :=
    fun k hk ↦ Function.update_of_ne (hlt k hk) _ _
  have hmem : ∀ {k}, k ∈ v.members → k ∈ (v.addMember n Lineage.newBody).members :=
    List.mem_cons_of_mem _
  have hback : ∀ {k}, k ∈ (v.addMember n Lineage.newBody).members → k ≠ n → k ∈ v.members :=
    fun hk hne ↦ (List.mem_cons.1 hk).resolve_left hne
  have hchild : ∀ k ∈ v.members, ∀ j ∈ (v.body k).children, j ∈ v.members ∧
      (v.body j).cowParent = some k := by
    intro k hk j hj
    rw [← hadd k hk] at hj
    obtain ⟨hjm, hjp⟩ := hok.child k (hmem hk) j hj
    have hjn : j ≠ n := by
      rintro rfl
      rw [show (v.addMember j Lineage.newBody).body j = Lineage.newBody from
        Function.update_self _ _ _] at hjp
      cases hjp
    have hjv := hback hjm hjn
    exact ⟨hjv, by rw [← hadd j hjv, hjp]⟩
  refine ⟨hok.nodup, hok.member, fun k hk p hp ↦ ?_, fun k hk j hj ↦ ?_, fun k hk ↦ ?_,
    fun k hk ↦ ?_, fun k hk q hq ↦ ?_, hok.size⟩
  all_goals rcases List.mem_cons.1 hk with rfl | hkv
  · rw [hnew] at hp ⊢
    cases hp
    rw [hsrc]
    exact ⟨h.newest source hsource, hmem hsource, List.mem_cons_self, h.size_eq.ge, hsize⟩
  · obtain ⟨c, hc, -, -⟩ := hold k hkv
    rw [hc] at hp ⊢
    have hp' := hp
    rw [show ({ v.body k with children := c } : NoteBody).cowParent = (v.body k).cowParent from rfl,
      ← hadd k hkv] at hp'
    obtain ⟨h1, h2, h3, h4, h5⟩ := hok.parent k (hmem hkv) p hp'
    have hpn : p ≠ n := fun heq ↦ absurd h1 (by rw [heq]; exact (h.newest k hkv).not_gt)
    have hpv := hback h2 hpn
    obtain ⟨c', hc', hmem', -⟩ := hold p hpv
    rw [hadd p hpv] at h3
    rw [hadd k hkv] at h4 h5
    rw [hc']
    exact ⟨h1, h2, (hmem' k).2 (.inl h3), h4, h5⟩
  · rw [hnew] at hj
    cases hj
  · obtain ⟨c, hc, hmem', -⟩ := hold k hkv
    rw [hc] at hj
    rcases (hmem' j).1 hj with hj | ⟨rfl, rfl⟩
    · obtain ⟨hjv, hjp⟩ := hchild k hkv j hj
      obtain ⟨c', hc', -, -⟩ := hold j hjv
      rw [hc']
      exact ⟨hmem hjv, hjp⟩
    · rw [hnew]
      exact ⟨List.mem_cons_self, rfl⟩
  · rw [hnew]
    exact List.nodup_nil
  · obtain ⟨c, hc, -, hnodup⟩ := hold k hkv
    rw [hc]
    refine hnodup ?_ fun hin ↦ hlt n (hchild k hkv n hin).1 rfl
    rw [← hadd k hkv]
    exact hok.childrenNodup k (hmem hkv)
  · rw [hnew]
    exact List.Pairwise.nil
  · obtain ⟨c, hc, -, -⟩ := hold k hkv
    rw [hc]
    have := hok.sorted k (hmem hkv)
    rwa [hadd k hkv] at this
  · rw [hnew] at hq
    cases hq
  · obtain ⟨c, hc, -, -⟩ := hold k hkv
    rw [hc] at hq
    have := hok.page k (hmem hkv) q
    rw [hadd k hkv] at this
    exact this hq

namespace Note

theorem createShared_spec {sizes : NoteId → ℕ} {size : ℕ} {rights : NoteRights} :
    Triple μ 0 {lock (.lineage l)} (Sized l v sizes) (createTemporary size rights (some l))
      (fun r ↦ {lock (.lineage l)} + joinedSites r.2)
      fun r s ↦ ∃ file, Joined l v sizes ⟨l, rights, file, false⟩ size r s := by
  refine createTemporary_spec (fun hle hk h ↦ h.keeps hk (Multiset.mem_of_le hle (by simp)))
    (fun _ ↦ add_zero _) (fun _ _ h h' ↦ ⟨0, h, h'⟩) fun file hsize ↦ ?_
  exact (adoptFd_shared_spec file rights false hsize).post
    fun _ _ h ↦ ⟨file, h⟩

theorem copy_spec {source : NoteId} (rights : NoteRights) :
    Triple μ 0 0 (fun s ↦ source < s.nextNote) (copy source rights) gotNote fun _ _ ↦ True := by
  intro s x w hK hat hsource
  rw [copy]
  by_cases hrights : noteRightsAreValid rights = false
  · rw [if_pos hrights]
    exact ⟨hat, trivial⟩
  rw [if_neg hrights]
  refine noteInfo_spec.next hat ⟨hsource, rfl⟩ ?_
  rintro _ w1 hat1 - ⟨rfl, his1⟩
  by_cases hright : (w.sys.noteInfo source).rights.read = false
  · rw [if_pos hright]
    exact ⟨hat1, trivial⟩
  rw [if_neg hright]
  refine lockNote_spec.next hat1 his1 ?_
  rintro v w2 hat2 - ⟨hok2, his2, hn⟩
  refine activeMappings_spec.aside hat2 trivial
    fun active w3 hat3 hk3 _ ↦ ?_
  have hok3 := hok2.keeps hk3 (by simp)
  rw [zero_add, add_zero] at hat3
  set l := (w.sys.noteInfo source).lineage
  by_cases hbusy : active ≠ 0
  · rw [if_pos hbusy]
    exact (unlockWith_spec (Status.busy, 0) gotNote).last hat3 (by simp [gotNote]) hok3
  rw [if_neg hbusy]
  refine loadSize_spec.aside hat3 trivial fun size w4 hat4 hk4 hsize4 ↦ ?_
  have hok4 := hok3.keeps hk4 (by simp)
  rw [zero_add] at hat4
  by_cases hext : (w.sys.noteInfo source).externalBacking = true
  · -- a copy of an external note is eager and has a lineage of its own
    simp only [hext, if_true]
    refine createOwn_spec.aside hat4 trivial ?_
    rintro ⟨status, made⟩ w5 hat5 hk5 h5
    have hok5 := hok4.keeps hk5 (by simp)
    cases made with
    | none =>
      refine (unlockWith_spec (status, 0) gotNote).last hat5 ?_ hok5
      rw [gotNote, if_neg h5]
      simp [foundedSites]
    | some p =>
      obtain ⟨n, k⟩ := p
      obtain ⟨rfl, file, hborn⟩ := h5
      have hmem : n ∈ (Lineage.empty.addMember n Lineage.newBody).members := List.mem_cons_self
      refine (copyExternalLocked_spec (size / pageSize) hn hmem).seq
        (F := {lock (.lineage l)} + {lock (.lineage k)} + {note n}) hat5 ?_
        (le_self_add.trans le_self_add) ⟨hok5, hborn.ok, ?_⟩ ?_
      · rw [sites_founded]
        simp only [foundedSites, Option.elim]
        abel
      · rw [hborn.size_eq, zero_add]
        exact Nat.div_mul_le_self _ _
      rintro ⟨status, v6, u6⟩ w6 hat6 - ⟨hok6, huk6⟩
      refine unlockLineage_spec.seq (F := v6.sites + {lock (.lineage l)} + {note n}) hat6
        (by ac_rfl) zero_le huk6 fun _ w7 hat7 hk7 _ ↦ ?_
      refine unlockLineage_spec.seq (F := {note n}) hat7 (by rw [zero_add]; ac_rfl) zero_le
        (hok6.keeps hk7 (by simp)) fun _ w8 hat8 _ _ ↦ ?_
      rw [zero_add] at hat8
      dsimp only
      split_ifs with hstatus
      · refine release_spec.first hat8 trivial
          fun _ w9 hat9 _ _ ↦ ?_
        exact ⟨hat9.congr (if_neg hstatus).symm, trivial⟩
      · exact ⟨hat8, trivial⟩
  · -- any other copy is a child of its source
    simp only [hext]
    refine createShared_spec.seq (F := v.sites) hat4 rfl zero_le hok4.sized ?_
    rintro ⟨status, made⟩ w5 hat5 hk5 ⟨file, h5⟩
    cases made with
    | none =>
      refine (unlockWith_spec (status, 0) gotNote).last hat5 ?_ h5.2.ok
      rw [gotNote, if_neg h5.1]
      simp [joinedSites]
    | some p =>
      obtain ⟨n, k⟩ := p
      obtain ⟨rfl, rfl, hborn⟩ := h5
      have hsize5 : size ≤ w5.sys.noteSize source := by
        rw [hborn.old source hn, hsize4]
      refine retainNote_spec.aside hat5
        ((hok4.member source).1 hn |>.1.trans_le hk5.nextNote) fun _ w6 hat6 hk6 _ ↦ ?_
      have hok6 := (hborn.withChild hn hsize5).keeps hk6 (by simp)
      refine (unlockWith_spec (v := v.withChild source n size) (Status.ok, n) gotNote).last hat6 ?_
        hok6
      rw [Lineage.sites_withChild (fun h ↦ (hborn.newest n h).ne rfl) hn]
      simp only [gotNote, joinedSites, Option.elim, if_true, add_zero]
      ac_rfl

end Note

end MiniMM
