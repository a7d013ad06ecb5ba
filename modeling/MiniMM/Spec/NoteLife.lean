import MiniMM.Spec.Note

/-!
# Specifications of making, copying and releasing notes
-/

namespace MiniMM

open Handle

variable {μ : Mode} {K : Multiset Handle} {v : Lineage} {n : NoteId} {l : LineageId} {s : Sys}

/-! ## Single steps -/

theorem retainNote_spec :
    Triple μ 0 0 (fun s ↦ n < s.nextNote) (Note.retain n) (fun _ ↦ {note n}) fun _ _ ↦ True :=
  .step (fun _ _ hk h ↦ h.trans_le hk.nextNote) (fun _ _ h ↦ ⟨le_rfl, h⟩)
    fun _ _ _ _ _ ↦ ⟨rfl, trivial⟩

theorem dropNote_spec :
    Triple μ 0 {note n} (fun _ ↦ True) (.step (.dropNote n)) (fun _ ↦ 0)
      fun _ s ↦ n < s.nextNote := by
  refine .step (fun _ _ _ h ↦ h) (fun _ _ _ ↦ ⟨le_rfl, trivial⟩)
    fun {w w' r} hinv hle _ hn _ ↦ ⟨add_comm _ _, ?_⟩
  obtain ⟨woken, hexec⟩ := hn.exec
  obtain ⟨-, hs⟩ := Prog.Outcome.ok.inj hexec
  rw [← hs]
  exact hinv.note_lt (Multiset.mem_of_le hle (by simp))

theorem newLineage_spec :
    Triple μ 0 0 (fun _ ↦ True) (.step .newLineage) (fun l ↦ {lock (.lineage l)})
      fun l s ↦ LineageOk s l .empty := by
  refine .step (fun _ _ _ h ↦ h) (fun _ _ _ ↦ ⟨le_rfl, trivial⟩)
    fun {w w' r} hinv hle _ hn _ ↦ ⟨add_comm _ _, ?_⟩
  obtain ⟨woken, hexec⟩ := hn.exec
  obtain ⟨hr, hs⟩ := Prog.Outcome.ok.inj hexec
  rw [← hs, ← hr]
  refine ⟨List.nodup_nil, fun n ↦ ?_, nofun, nofun, nofun, nofun, nofun, nofun⟩
  constructor
  · nofun
  · rintro ⟨hlt, hline⟩
    exact absurd (hinv.fresh.noteLineage n hlt) (by rw [hline]; exact Nat.lt_irrefl _)

theorem LineageOk.addMember {s' : Sys} (h : LineageOk s l v) {info : NoteInfo} {size : ℕ}
    (hline : info.lineage = l) (hsize : size % pageSize = 0)
    (hnext : s'.nextNote = s.nextNote + 1)
    (hinfo : s'.noteInfo = Function.update s.noteInfo s.nextNote info)
    (hsizes : s'.noteSize = Function.update s.noteSize s.nextNote size) :
    LineageOk s' l (v.addMember s.nextNote Lineage.newBody) := by
  have hlt : ∀ k ∈ v.members, k ≠ s.nextNote := fun k hk ↦ ((h.member k).1 hk).1.ne
  have hbody : ∀ k ∈ v.members, (v.addMember s.nextNote Lineage.newBody).body k = v.body k :=
    fun k hk ↦ Function.update_of_ne (hlt k hk) _ _
  have hself : (v.addMember s.nextNote Lineage.newBody).body s.nextNote = Lineage.newBody :=
    Function.update_self _ _ _
  have hold : ∀ k ∈ v.members, s'.noteSize k = s.noteSize k := fun k hk ↦ by
    rw [hsizes, Function.update_of_ne (hlt k hk)]
  refine ⟨List.nodup_cons.2 ⟨fun hmem ↦ hlt _ hmem rfl, h.nodup⟩, fun k ↦ ?_, fun k hk p hp ↦ ?_,
    fun k hk j hj ↦ ?_, fun k hk ↦ ?_, fun k hk ↦ ?_, fun k hk q hq ↦ ?_, fun k hk ↦ ?_⟩
  · rw [hnext, hinfo, Lineage.addMember, List.mem_cons, h.member]
    by_cases hk : k = s.nextNote
    · subst hk
      simp [hline]
    · rw [Function.update_of_ne hk]
      simp only [hk, false_or]
      constructor
      · rintro ⟨h1, h2⟩
        exact ⟨Nat.lt_succ_of_lt h1, h2⟩
      · rintro ⟨h1, h2⟩
        exact ⟨(Nat.lt_succ_iff.1 h1).lt_of_ne hk, h2⟩
  all_goals rcases List.mem_cons.1 hk with rfl | hk
  · rw [hself] at hp
    cases hp
  · rw [hbody k hk] at hp ⊢
    obtain ⟨h1, h2, h3, h4, h5⟩ := h.parent k hk p hp
    rw [hbody p h2, hold k hk, hold p h2]
    exact ⟨h1, List.mem_cons_of_mem _ h2, h3, h4, h5⟩
  · rw [hself] at hj
    cases hj
  · rw [hbody k hk] at hj
    obtain ⟨h1, h2⟩ := h.child k hk j hj
    rw [hbody j h1]
    exact ⟨List.mem_cons_of_mem _ h1, h2⟩
  · rw [hself]
    exact List.nodup_nil
  · rw [hbody k hk]
    exact h.childrenNodup k hk
  · rw [hself]
    exact List.Pairwise.nil
  · rw [hbody k hk]
    exact h.sorted k hk
  · rw [hself] at hq
    cases hq
  · rw [hbody k hk] at hq
    rw [hold k hk]
    exact h.page k hk q hq
  · rw [hsizes, Function.update_self, hsize]
  · rw [hold k hk]
    exact h.size k hk

/-- A lineage in order whose notes have the sizes `sizes`. -/
structure Sized (l : LineageId) (v : Lineage) (sizes : NoteId → ℕ) (s : Sys) : Prop where
  ok : LineageOk s l v
  size_eq : ∀ k ∈ v.members, s.noteSize k = sizes k

theorem LineageOk.sized (h : LineageOk s l v) : Sized l v s.noteSize s := ⟨h, fun _ _ ↦ rfl⟩

variable {sizes : NoteId → ℕ}

theorem Sized.keeps {x : Multiset Handle} {s' : Sys} (h : Sized l v sizes s) (hk : Keeps x s s')
    (hl : lock (.lineage l) ∈ x) : Sized l v sizes s' :=
  ⟨h.ok.keeps hk hl, fun k hmem ↦ by rw [h.ok.noteSize_keeps hmem hk hl, h.size_eq k hmem]⟩

/-- What is known of a note that has just been made in a lineage. -/
structure Born (l : LineageId) (v : Lineage) (sizes : NoteId → ℕ) (n : NoteId) (info : NoteInfo)
    (size : ℕ) (s : Sys) : Prop where
  ok : LineageOk s l (v.addMember n Lineage.newBody)
  newest : ∀ k ∈ v.members, k < n
  noteIs : NoteIs n info s
  size_eq : s.noteSize n = size
  old : ∀ k ∈ v.members, s.noteSize k = sizes k

/-- The handle of a note that may have been made. -/
def newNoteSites (n : Option NoteId) : Multiset Handle := n.elim 0 fun n ↦ {note n}

theorem newNote_spec {info : NoteInfo} {size : ℕ} (hline : info.lineage = l)
    (hsize : size % pageSize = 0) :
    Triple μ 0 {lock (.lineage l)} (Sized l v sizes) (.step (.newNote info size))
      (fun r ↦ {lock (.lineage l)} + newNoteSites r)
      fun r s ↦ r.elim (Sized l v sizes s) fun n ↦ Born l v sizes n info size s := by
  refine .step (fun _ _ hk h ↦ h.keeps hk (by simp)) (fun _ _ _ ↦ ⟨?_, trivial⟩)
    fun {w w' r} hinv hle h hn _ ↦ ?_
  · rw [← hline]
    exact le_rfl
  · obtain ⟨woken, hexec⟩ := hn.exec
    simp only [Sys.Op.wake, Sys.exec] at hexec
    split_ifs at hexec
    · obtain ⟨hr, hs⟩ := Prog.Outcome.ok.inj hexec
      subst hr
      rw [← hs]
      exact ⟨rfl, h⟩
    · obtain ⟨hr, hs⟩ := Prog.Outcome.ok.inj hexec
      subst hr
      rw [← hs]
      refine ⟨rfl, h.ok.addMember hline hsize rfl rfl rfl, fun k hk ↦ ((h.ok.member k).1 hk).1,
        ⟨Nat.lt_succ_self _, Function.update_self _ _ _⟩, Function.update_self _ _ _,
        fun k hk ↦ ?_⟩
      exact (Function.update_of_ne ((h.ok.member k).1 hk).1.ne _ _).trans (h.size_eq k hk)

/-! ## Making notes -/

namespace Note

theorem noteStatusFromErrno_ne (e : Errno) : noteStatusFromErrno e ≠ .ok := by
  cases e <;> decide

/-- A note that may have been made in a lineage whose lock is held. -/
def Joined (l : LineageId) (v : Lineage) (sizes : NoteId → ℕ) (info : NoteInfo) (size : ℕ)
    (r : Status × Option (NoteId × LineageId)) (s : Sys) : Prop :=
  match r.2 with
  | none => r.1 ≠ .ok ∧ Sized l v sizes s
  | some (n, k) => r.1 = .ok ∧ k = l ∧ Born l v sizes n info size s

def joinedSites (r : Option (NoteId × LineageId)) : Multiset Handle := r.elim 0 fun p ↦ {note p.1}

theorem adoptFd_shared_spec (file : FileId) {size : ℕ} (rights : NoteRights) (external : Bool)
    (hsize : size % pageSize = 0) :
    Triple μ 0 {lock (.lineage l)} (Sized l v sizes) (adoptFd file size rights (some l) external)
      (fun r ↦ {lock (.lineage l)} + joinedSites r.2)
      (Joined l v sizes ⟨l, rights, file, external⟩ size) := by
  intro s x w hK hat hok
  have hl : lock (.lineage l) ∈ {lock (.lineage l)} + x := by simp
  refine malloc_spec.seq (F := {lock (.lineage l)}) hat rfl zero_le trivial
    fun allocated w1 hat1 hk1 _ ↦ ?_
  have hok1 := hok.keeps hk1 hl
  split_ifs with ha
  · exact ⟨hat1.congr rfl, nofun, hok1⟩
  refine fileCall_spec.seq (F := {lock (.lineage l)}) hat1 rfl zero_le trivial
    fun made w2 hat2 hk2 _ ↦ ?_
  have hok2 := hok1.keeps hk2 hl
  split
  · exact ⟨hat2.congr rfl, frameStatusFromErrno_ne_ok _, hok2⟩
  refine malloc_spec.seq (F := {lock (.lineage l)}) hat2 rfl zero_le trivial
    fun allocated w3 hat3 hk3 _ ↦ ?_
  have hok3 := hok2.keeps hk3 hl
  split_ifs with ha3
  · exact ⟨hat3.congr rfl, nofun, hok3⟩
  refine (newNote_spec rfl hsize).seq (F := 0) hat3 (by simp) zero_le hok3
    fun r w4 hat4 _ h4 ↦ ?_
  cases r with
  | none => exact ⟨hat4.congr rfl, nofun, h4⟩
  | some n => exact ⟨hat4.congr rfl, rfl, rfl, h4⟩

/-- A note that may have been made with a lineage of its own. -/
def Founded (rights : NoteRights) (size : ℕ) (external : Bool)
    (r : Status × Option (NoteId × LineageId)) (s : Sys) : Prop :=
  match r.2 with
  | none => r.1 ≠ .ok
  | some (n, l) => r.1 = .ok ∧
    ∃ file, Born l .empty (fun _ ↦ 0) n ⟨l, rights, file, external⟩ size s

def foundedSites (r : Option (NoteId × LineageId)) : Multiset Handle :=
  r.elim 0 fun p ↦ {lock (.lineage p.2)} + {note p.1}

theorem adoptFd_own_spec (file : FileId) {size : ℕ} (rights : NoteRights) (external : Bool)
    (hsize : size % pageSize = 0) :
    Triple μ 0 0 (fun _ ↦ True) (adoptFd file size rights none external)
      (fun r ↦ foundedSites r.2) (Founded rights size external) := by
  intro s x w hK hat _
  refine malloc_spec.next hat trivial fun allocated w1 hat1 _ _ ↦ ?_
  split_ifs with ha
  · exact ⟨hat1, nofun⟩
  refine fileCall_spec.next hat1 trivial fun made w2 hat2 _ _ ↦ ?_
  split
  · exact ⟨hat2, frameStatusFromErrno_ne_ok _⟩
  refine malloc_spec.next hat2 trivial fun allocated w3 hat3 _ _ ↦ ?_
  split_ifs with ha3
  · exact ⟨hat3, nofun⟩
  refine malloc_spec.next hat3 trivial fun allocated w4 hat4 _ _ ↦ ?_
  split_ifs with ha4
  · exact ⟨hat4, nofun⟩
  refine newLineage_spec.next hat4 trivial fun l w5 hat5 _ hok5 ↦ ?_
  have hsized : Sized l .empty (fun _ ↦ 0) w5.sys := ⟨hok5, nofun⟩
  refine (newNote_spec rfl hsize).next hat5 hsized fun r w6 hat6 _ h6 ↦ ?_
  cases r with
  | none =>
    refine unlockLineage_spec.next hat6 h6.ok fun _ w7 hat7 _ _ ↦ ?_
    exact ⟨hat7, nofun⟩
  | some n => exact ⟨hat6.congr rfl, rfl, file, h6⟩

theorem sizeIsValid {size : ℕ} (h : noteSizeIsValid size = true) : size % pageSize = 0 := by
  simp only [noteSizeIsValid, Bool.and_eq_true, decide_eq_true_eq] at h
  exact h.1

theorem createTemporary_spec {size : ℕ} {rights : NoteRights} {shared : Option LineageId}
    {H : Multiset Handle} {P : Sys → Prop}
    {G : Status × Option (NoteId × LineageId) → Multiset Handle}
    {Q : Status × Option (NoteId × LineageId) → Sys → Prop}
    (hP : ∀ {s s' : Sys} {x}, H ≤ x → Keeps x s s' → P s → P s')
    (hG : ∀ status, G (status, none) = H)
    (hQ : ∀ status s, status ≠ .ok → P s → Q (status, none) s)
    (hadopt : ∀ file, size % pageSize = 0 →
      Triple μ 0 H P (adoptFd file size rights shared false) G Q) :
    Triple μ 0 H P (createTemporary size rights shared) G Q := by
  intro s x w hK hat h
  rw [createTemporary]
  split_ifs with hinvalid
  · exact ⟨hat.congr (hG _).symm, hQ _ _ nofun h⟩
  have hsize : size % pageSize = 0 := by
    rw [not_or] at hinvalid
    exact sizeIsValid (by simpa using hinvalid.1)
  refine fileCall_spec.seq (F := H) hat (zero_add _).symm zero_le trivial
    fun made w1 hat1 hk1 _ ↦ ?_
  have h1 := hP le_self_add hk1 h
  rw [zero_add] at hat1
  split
  · exact ⟨hat1.congr (hG _).symm, hQ _ _ (noteStatusFromErrno_ne _) h1⟩
  refine fileCall_spec.seq (F := H) hat1 (zero_add _).symm zero_le trivial
    fun made w2 hat2 hk2 _ ↦ ?_
  have h2 := hP le_self_add hk2 h1
  rw [zero_add] at hat2
  split
  · exact ⟨hat2.congr (hG _).symm, hQ _ _ (noteStatusFromErrno_ne _) h2⟩
  refine fileCall_spec.seq (F := H) hat2 (zero_add _).symm zero_le trivial
    fun made w3 hat3 hk3 _ ↦ ?_
  have h3 := hP le_self_add hk3 h2
  rw [zero_add] at hat3
  split
  · exact ⟨hat3.congr (hG _).symm, hQ _ _ (noteStatusFromErrno_ne _) h3⟩
  refine (newFile_spec _).seq (F := H) hat3 (zero_add _).symm zero_le trivial
    fun file w4 hat4 hk4 _ ↦ ?_
  exact hadopt file hsize s x w4 hK (hat4.congr (zero_add _)) (hP le_self_add hk4 h3)

/-- The handle of a note that a call returns. -/
def gotNote (r : Status × NoteId) : Multiset Handle := if r.1 = .ok then {note r.2} else 0

theorem sites_founded (n : NoteId) : (Lineage.empty.addMember n Lineage.newBody).sites = 0 := by
  simp [Lineage.sites, Lineage.addMember, Lineage.empty, Lineage.newBody, NoteBody.sites,
    parentSites]

theorem publish_spec {r : Status × Option (NoteId × LineageId)} {rights : NoteRights} {size : ℕ}
    {external : Bool} :
    Triple μ 0 (foundedSites r.2) (Founded rights size external r)
      (match r.2 with
        | none => Pure.pure (r.1, 0)
        | some (n, l) => do
          .step (.unlockLineage l (Lineage.empty.addMember n Lineage.newBody))
          Pure.pure (r.1, n))
      gotNote fun _ _ ↦ True := by
  obtain ⟨status, made⟩ := r
  intro s x w hK hat h
  cases made with
  | none => exact ⟨hat.congr (if_neg h).symm, trivial⟩
  | some p =>
    obtain ⟨n, l⟩ := p
    obtain ⟨rfl, file, hborn⟩ := h
    refine unlockLineage_spec.seq (F := {note n}) hat ?_ zero_le hborn.ok fun _ w1 hat1 _ _ ↦ ?_
    · rw [sites_founded, add_zero]
      rfl
    · exact ⟨hat1.congr (zero_add _), trivial⟩

theorem createOwn_spec {size : ℕ} {rights : NoteRights} :
    Triple μ 0 0 (fun _ ↦ True) (createTemporary size rights none) (fun r ↦ foundedSites r.2)
      (Founded rights size false) :=
  createTemporary_spec (fun _ _ h ↦ h) (fun _ ↦ rfl) (fun _ _ h _ ↦ h)
    fun file hsize ↦ adoptFd_own_spec file rights false hsize

theorem create_spec (size : ℕ) (rights : NoteRights) :
    Triple μ 0 0 (fun _ ↦ True) (create size rights) gotNote fun _ _ ↦ True := by
  intro s x w hK hat _
  refine createOwn_spec.next hat trivial fun r w1 hat1 _ h1 ↦ ?_
  exact publish_spec s x w1 hK (hat1.congr (add_zero _)) h1

theorem openFd_spec (bytes : ByteFile.Bytes) (size : ℕ) (rights : NoteRights) :
    Triple μ 0 0 (fun _ ↦ True) (openFd bytes size rights) gotNote fun _ _ ↦ True := by
  intro s x w hK hat _
  rw [openFd]
  by_cases hrights : noteRightsAreValid rights = false
  · rw [if_pos hrights]
    exact ⟨hat, trivial⟩
  rw [if_neg hrights]
  refine fileCall_spec.next hat trivial fun opened w1 hat1 _ _ ↦ ?_
  split
  · exact ⟨hat1.congr (if_neg (noteStatusFromErrno_ne _)).symm, trivial⟩
  split_ifs with hsize
  · exact ⟨hat1, trivial⟩
  refine (newFile_spec _).next hat1 trivial fun file w2 hat2 _ _ ↦ ?_
  refine (adoptFd_own_spec file rights true (sizeIsValid (by simpa using hsize))).next hat2
    trivial fun r w3 hat3 _ h3 ↦ ?_
  exact publish_spec s x w3 hK (hat3.congr (add_zero _)) h3

end Note

/-! ## Releasing notes -/

theorem CachedPages.release_spec (pages : CachedPages) :
    Spends μ 0 pages.sites (fun _ ↦ True) pages.release := by
  induction pages with
  | nil => exact .pure rfl fun _ h ↦ h
  | cons q rest ih =>
    obtain ⟨o, g⟩ := q
    intro s x w hK hat _
    refine MiniMM.release_spec.seq (F := CachedPages.sites rest) hat rfl zero_le
      trivial fun _ w1 hat1 _ _ ↦ ?_
    exact ih s x w1 hK (hat1.congr (zero_add _)) trivial

namespace Lineage

/-- The lineage after `minimm_note_release` has taken a note from its parent. -/
def unlinked (v : Lineage) (n parent : NoteId) : Lineage :=
  (v.setBody parent { v.body parent with children := (v.body parent).children.erase n }).setBody n
    { (v.setBody parent
        { v.body parent with children := (v.body parent).children.erase n }).body n with
      cowParent := none }

variable {parent : NoteId}

theorem unlinked_body_self (hne : n ≠ parent) :
    (v.unlinked n parent).body n = { v.body n with cowParent := none } := by
  rw [unlinked, body_setBody_self, body_setBody_of_ne hne]

theorem unlinked_body_parent (hne : n ≠ parent) : (v.unlinked n parent).body parent =
    { v.body parent with children := (v.body parent).children.erase n } := by
  rw [unlinked, body_setBody_of_ne hne.symm, body_setBody_self]

theorem unlinked_body_of_ne {k : NoteId} (hn : k ≠ n) (hp : k ≠ parent) :
    (v.unlinked n parent).body k = v.body k := by
  rw [unlinked, body_setBody_of_ne hn, body_setBody_of_ne hp]

theorem unlinked_pages (hne : n ≠ parent) : (v.unlinked n parent).pages n = v.pages n := by
  rw [pages, unlinked_body_self hne, pages]

theorem sites_unlinked (hnodup : v.members.Nodup) (hn : n ∈ v.members) (hp : parent ∈ v.members)
    (hne : n ≠ parent) (hparent : (v.body n).cowParent = some parent) :
    v.sites = (v.unlinked n parent).sites + {note parent} := by
  set v1 := v.setBody parent
    { v.body parent with children := (v.body parent).children.erase n } with hv1
  have h1 : v1.sites = v.sites :=
    add_right_cancel (sites_setBody (v := v) (n := parent) (b := { v.body parent with
      children := (v.body parent).children.erase n }) hnodup hp)
  have hbody : v1.body n = v.body n := body_setBody_of_ne hne
  have h2 := sites_setBody (v := v1) (n := n) (b := { v1.body n with cowParent := none })
    hnodup hn
  rw [h1, hbody] at h2
  simp only [NoteBody.sites, hparent, parentSites, add_zero] at h2
  refine add_right_cancel (b := CachedPages.sites (v.body n).pages) (h2.symm.trans ?_)
  rw [unlinked, ← hv1, hbody]
  ac_rfl

end Lineage

theorem LineageOk.unlinked (h : LineageOk s l v) (hn : n ∈ v.members) {parent : NoteId}
    (hparent : (v.body n).cowParent = some parent) : LineageOk s l (v.unlinked n parent) := by
  obtain ⟨hlt, hpm, -, -, -⟩ := h.parent n hn parent hparent
  have hne : n ≠ parent := hlt.ne'
  have hself := Lineage.unlinked_body_self (v := v) hne
  have hpar := Lineage.unlinked_body_parent (v := v) hne
  have hother : ∀ k, k ≠ n → k ≠ parent → (v.unlinked n parent).body k = v.body k :=
    fun k h1 h2 ↦ Lineage.unlinked_body_of_ne h1 h2
  -- pages and inherited sizes stay, and so do the parents of the other notes
  have hpages : ∀ k, ((v.unlinked n parent).body k).pages = (v.body k).pages := by
    intro k
    by_cases h1 : k = n
    · rw [h1, hself]
    · by_cases h2 : k = parent
      · rw [h2, hpar]
      · rw [hother k h1 h2]
  have hinherited : ∀ k, ((v.unlinked n parent).body k).inheritedSize =
      (v.body k).inheritedSize := by
    intro k
    by_cases h1 : k = n
    · rw [h1, hself]
    · by_cases h2 : k = parent
      · rw [h2, hpar]
      · rw [hother k h1 h2]
  have hcow : ∀ k, k ≠ n → ((v.unlinked n parent).body k).cowParent = (v.body k).cowParent := by
    intro k h1
    by_cases h2 : k = parent
    · rw [h2, hpar]
    · rw [hother k h1 h2]
  have hchildren : ∀ k, k ≠ parent →
      ((v.unlinked n parent).body k).children = (v.body k).children := by
    intro k h2
    by_cases h1 : k = n
    · rw [h1, hself]
    · rw [hother k h1 h2]
  refine ⟨h.nodup, h.member, fun k hk p hp ↦ ?_, fun k hk j hj ↦ ?_, fun k hk ↦ ?_, fun k hk ↦ ?_,
    fun k hk ↦ ?_, h.size⟩
  · have hkn : k ≠ n := by
      rintro rfl
      rw [hself] at hp
      cases hp
    rw [hcow k hkn] at hp
    obtain ⟨h1, h2, h3, h4, h5⟩ := h.parent k hk p hp
    rw [hinherited]
    refine ⟨h1, h2, ?_, h4, h5⟩
    by_cases hpp : p = parent
    · subst hpp
      rw [hpar]
      exact (List.mem_erase_of_ne hkn).2 h3
    · rwa [hchildren p hpp]
  · have hold : j ∈ (v.body k).children ∧ j ≠ n := by
      by_cases hkp : k = parent
      · subst hkp
        rw [hpar] at hj
        have hj' := (h.childrenNodup k hk).mem_erase_iff.1 hj
        exact ⟨hj'.2, hj'.1⟩
      · rw [hchildren k hkp] at hj
        refine ⟨hj, ?_⟩
        rintro rfl
        have := (h.child k hk j hj).2
        rw [hparent] at this
        exact hkp (Option.some.inj this).symm
    obtain ⟨hjm, hjp⟩ := h.child k hk j hold.1
    exact ⟨hjm, by rw [hcow j hold.2, hjp]⟩
  · by_cases hkp : k = parent
    · subst hkp
      rw [hpar]
      exact (h.childrenNodup k hk).erase n
    · rw [hchildren k hkp]
      exact h.childrenNodup k hk
  · rw [hpages]
    exact h.sorted k hk
  · rw [hpages]
    exact h.page k hk

namespace Note

theorem unlinkLocked_spec (hn : n ∈ v.members) :
    Triple μ {lock (.lineage l)} v.sites (fun s ↦ LineageOk s l v) (unlinkLocked v n)
      (fun u ↦ u.sites + parentSites (v.body n).cowParent)
      fun u s ↦ LineageOk s l u ∧ u.members = v.members ∧ u.pages n = v.pages n := by
  intro s x w hK hat hok
  rw [unlinkLocked]
  split
  · rename_i hnone
    exact ⟨hat.congr (by rw [hnone]; exact (add_zero _).symm), hok, rfl, rfl⟩
  rename_i parent hparent
  obtain ⟨hlt, hpm, hchild, -, -⟩ := hok.parent n hn parent hparent
  have hlinked : (!(v.body parent).children.contains n) = false := by
    rw [Bool.not_eq_false', List.contains_iff_mem]
    exact hchild
  refine (whenAbort_spec _ _).seq (F := v.sites) hat (zero_add _).symm zero_le
    (fun h ↦ absurd (hlinked.symm.trans h) Bool.false_ne_true) fun _ w1 hat1 hk1 _ ↦ ?_
  have hok1 := hok.keeps hk1 (Multiset.mem_of_le (hK.trans (le_add_left le_rfl)) (by simp))
  refine ⟨hat1.congr ?_, hok1.unlinked hn hparent, rfl, ?_⟩
  · rw [zero_add, Lineage.sites_unlinked hok.nodup hn hpm hlt.ne' hparent, hparent]
    rfl
  · exact Lineage.unlinked_pages hlt.ne'

theorem releaseFrom_spec (fuel : ℕ) (hfuel : n < fuel) :
    Spends μ 0 {note n} (fun _ ↦ True) (releaseFrom fuel n) := by
  induction fuel generalizing n with
  | zero => exact absurd hfuel (Nat.not_lt_zero n)
  | succ fuel ih =>
    intro s x w hK hat _
    rw [releaseFrom]
    refine dropNote_spec.first hat trivial
      fun final w1 hat1 _ hlt ↦ ?_
    by_cases hf : final = true
    swap
    · rw [if_neg hf]
      exact ⟨hat1, trivial⟩
    rw [if_pos hf]
    refine noteInfo_spec.next hat1 ⟨hlt, rfl⟩ ?_
    rintro _ w2 hat2 - ⟨rfl, his⟩
    refine lockLineage_spec.next hat2 (his.lineage_lt hat2.inv)
      fun v w3 hat3 hk3 hok3 ↦ ?_
    have his3 := his.keeps hk3
    have hn : n ∈ v.members := (hok3.member n).2 ⟨his3.lt, by rw [his3.eq]⟩
    refine (whenAbort_spec _ _).aside hat3 (fun _ ↦ rfl)
      fun _ w4 hat4 hk4 _ ↦ ?_
    have hok4 := hok3.keeps hk4 (by simp)
    set l := (w1.sys.noteInfo n).lineage
    refine (unlinkLocked_spec hn).seq (F := {lock (.lineage l)}) hat4 (by abel)
      le_self_add hok4 ?_
    rintro u w5 hat5 - ⟨hok5, hmembers, hpages⟩
    have hn5 : n ∈ u.members := hmembers ▸ hn
    refine loadSize_spec.aside hat5 trivial fun size w6 hat6 hk6 _ ↦ ?_
    have hok6 := hok5.keeps hk6 (by simp)
    refine (syncPagesLocked_spec size (u.pages n)).seq hat6 (zero_add _).symm ?_ trivial
      fun _ w7 hat7 hk7 _ ↦ ?_
    · exact ((Lineage.pages_sites_le hn5).trans (le_self_add.trans le_self_add)).trans
        ((le_add_left le_rfl).trans le_self_add)
    have hok7 := hok6.keeps hk7 (by simp)
    have hempty : LineageOk w7.sys l (u.setPages n []) :=
      hok7.setPages List.Pairwise.nil fun _ hq ↦ nomatch hq
    have hsites : (u.setPages n []).sites + (u.pages n).sites = u.sites :=
      (Lineage.sites_setPages hok5.nodup hn5 []).trans (add_zero _)
    refine unlockLineage_spec.seq (F := (u.pages n).sites + parentSites (v.body n).cowParent) hat7
      ?_ zero_le hempty fun _ w8 hat8 _ _ ↦ ?_
    · rw [← hsites]
      abel
    refine (CachedPages.release_spec _).seq hat8 (zero_add _) zero_le trivial
      fun _ w9 hat9 _ _ ↦ ?_
    rw [zero_add] at hat9
    split
    · rename_i hnone
      rw [hnone] at hat9
      exact ⟨hat9, trivial⟩
    · rename_i parent hparent
      rw [hparent] at hat9
      have hlt' := (hok3.parent n hn parent hparent).1
      exact ih (hlt'.trans_le (Nat.lt_succ_iff.1 hfuel)) s x w9 hK hat9 trivial

theorem release_spec : Spends μ 0 {note n} (fun _ ↦ True) (release n) :=
  releaseFrom_spec (n + 1) (Nat.lt_succ_self n)

end Note

end MiniMM
