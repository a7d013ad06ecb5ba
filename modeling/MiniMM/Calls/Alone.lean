import MiniMM.Calls.Still
import MiniMM.Logic.Count
import MiniMM.Threads.Reach

/-!
# Calls that run alone

What a call leaves when nobody else runs between its steps: the space it works on, the other spaces,
and the counts of the frames.
-/

namespace MiniMM

open Handle Code

/-- Of the spaces only `i` may have changed, and no lock of a space has changed hands. -/
structure Sys.OnlySpace (i : SpaceId) (s s' : Sys) : Prop where
  other : ∀ j, j ≠ i → s'.space j = s.space j
  nextSpace : s'.nextSpace = s.nextSpace
  held : ∀ j, s'.held (.space j) = s.held (.space j)
  brk : s'.brk = s.brk
  tlb : ∀ j, j ≠ i → s.held (.space j) = false → s'.tlb j = s.tlb j

theorem Sys.OnlySpace.refl (s : Sys) (i : SpaceId) : s.OnlySpace i s :=
  ⟨fun _ _ ↦ rfl, rfl, fun _ ↦ rfl, rfl, fun _ _ _ ↦ rfl⟩

theorem Sys.OnlySpace.trans {i : SpaceId} {s s' s'' : Sys} (h : s.OnlySpace i s')
    (h' : s'.OnlySpace i s'') : s.OnlySpace i s'' where
  other j hj := (h'.other j hj).trans (h.other j hj)
  nextSpace := h'.nextSpace.trans h.nextSpace
  held j := (h'.held j).trans (h.held j)
  brk := h'.brk.trans h.brk
  tlb j hj hfree := (h'.tlb j hj ((h.held j).trans hfree)).trans (h.tlb j hj hfree)

theorem Sys.OnlySpace.stood {i : SpaceId} {s s' s'' : Sys} (h : s.OnlySpace i s')
    (hs : s'.Stood s'') (htlb : ∀ j, s'.held (.space j) = false → s''.tlb j = s'.tlb j) :
    s.OnlySpace i s'' where
  other j hj := by rw [hs.space, h.other j hj]
  nextSpace := hs.nextSpace.trans h.nextSpace
  held j := (hs.held j).trans (h.held j)
  brk := hs.brk.trans h.brk
  tlb j hj hfree := (htlb j ((h.held j).trans hfree)).trans (h.tlb j hj hfree)

/-- The mappings and pins of every frame are as they were. -/
def Sys.SameEntryCounts (s s' : Sys) : Prop :=
  ∀ f, (s'.store.frame f).mappings = (s.store.frame f).mappings ∧
    (s'.store.frame f).pinCount = (s.store.frame f).pinCount

theorem Inv.sameEntryCounts_of_sum {μ : Mode} {s s' : Sys} {o : Multiset Handle}
    (h : Inv μ ⟨s, 0, o⟩) (h' : Inv μ ⟨s', 0, o⟩)
    (hsum : ∀ x, (∑ i ∈ Finset.range s'.nextSpace,
        if s'.held (.space i) then 0 else (s'.space i).pageTable.sites.count x) =
      ∑ i ∈ Finset.range s.nextSpace,
        if s.held (.space i) then 0 else (s.space i).pageTable.sites.count x) :
    s.SameEntryCounts s' := by
  have hcount : ∀ {x : Handle}, (∃ f, x = .map f ∨ x = .pin f) → s'.count x = s.count x := by
    intro x hx
    have hs := h.tally x
    have hs' := h'.tally x
    simp only [Multiset.count_add, Multiset.count_zero] at hs hs'
    rw [hs, hs', Sys.count_stored_entry hx, Sys.count_stored_entry hx, hsum]
  exact fun f ↦ ⟨hcount ⟨f, .inl rfl⟩, hcount ⟨f, .inr rfl⟩⟩

theorem Inv.sameEntryCounts {μ : Mode} {i : SpaceId} {s s' : Sys} {o : Multiset Handle}
    (h : Inv μ ⟨s, 0, o⟩) (h' : Inv μ ⟨s', 0, o⟩) (honly : s.OnlySpace i s')
    (hsame : (s'.space i).pageTable.sites = (s.space i).pageTable.sites) :
    s.SameEntryCounts s' := by
  refine h.sameEntryCounts_of_sum h' fun x ↦ ?_
  rw [honly.nextSpace]
  refine Finset.sum_congr rfl fun j _ ↦ ?_
  rw [honly.held]
  by_cases hj : j = i
  · rw [hj, hsame]
  · rw [honly.other j hj]

/-- The mappings, the bindings, the entries, the next cookie and the fault trace of every space and
the counts of every frame are as they were. -/
structure Sys.Untouched (s s' : Sys) : Prop where
  mappings : ∀ j, (s'.space j).vmaSnapshot = (s.space j).vmaSnapshot
  bindings : ∀ j, (s'.space j).bindings = (s.space j).bindings
  cookie : ∀ j, (s'.space j).nextMappingCookie = (s.space j).nextMappingCookie
  entries : ∀ j a, (s'.space j).pteAt a = (s.space j).pteAt a
  faults : ∀ j, (s'.space j).faultTraceEvents = (s.space j).faultTraceEvents
  counts : ∀ f, (s'.store.frame f).mappings = (s.store.frame f).mappings ∧
    (s'.store.frame f).pinCount = (s.store.frame f).pinCount

theorem Inv.tlb_of_free {μ : Mode} {w : World} {β : Type} {o : Sys.Op β} {b : β} {s' : Sys}
    {i : SpaceId} (h : Inv μ w) (hlegal : (rules μ).legal o w) (ho : o.still)
    (hexec : w.sys.exec o = .ok b s') (hfree : w.sys.held (.space i) = false) :
    s'.tlb i = w.sys.tlb i := by
  cases o with
  | tlb j q =>
    cases hexec
    refine Function.update_of_ne (fun hij ↦ ?_) _ _
    have hmem : lock (.space j) ∈ w.mine :=
      Multiset.mem_of_le ((le_add_left le_rfl).trans hlegal.1) (Multiset.mem_singleton_self _)
    rw [hij, h.held_of_mem hmem] at hfree
    cases hfree
  | newSpace => cases ho
  | abort | stuck => cases hexec
  | create | request | store | newNote =>
    simp only [Sys.exec] at hexec
    split at hexec <;> cases hexec <;> rfl
  | lockSpace | lockBrk | lockBacking | lockLineage =>
    simp only [Sys.exec, Sys.lock] at hexec
    split at hexec <;> cases hexec
    rfl
  | retain | retainBacking | retainNote =>
    simp only [Sys.exec, Sys.countUp] at hexec
    split at hexec <;> cases hexec
    rfl
  | _ =>
    cases hexec
    rfl

section Still

variable {μ : Mode} {s : Sys} {F H K o : Multiset Handle} {P : Sys → Prop} {α : Type} {p : Code α}
  {G : α → Multiset Handle} {Q : α → Sys → Prop}

/-- What code between the locking and the unlocking of a space leaves when nobody else runs. -/
theorem Triple.still_ends (h : Triple μ K H P p G Q) (hstill : Still p) (hprompt : μ.prompt = false)
    (hK : K ≤ F) (hinv : Inv μ ⟨s, H + F, o⟩) (hP : P s) :
    Ends p s fun r s' ↦ Inv μ ⟨s', G r + F, o⟩ ∧ Keeps F s s' ∧ Q r s' ∧ s.Stood s' ∧
      ∀ i, s.held (.space i) = false → s'.tlb i = s.tlb i := by
  intro r s' hrun
  have hnext : ∀ {β : Type} {q : Sys.Op β} {w : World} {b : β} {s2 : Sys}, q.still → Inv μ w →
      (w.others = o ∧ s.Stood w.sys ∧ ∀ i, s.held (.space i) = false → w.sys.tlb i = s.tlb i) →
      (rules μ).legal q w → w.sys.exec q = .ok b s2 →
      ∃ w', w'.sys = s2 ∧ Next μ q w b w' ∧ Inv μ w' ∧ w'.others = o ∧ s.Stood w'.sys ∧
        ∀ i, s.held (.space i) = false → w'.sys.tlb i = s.tlb i := by
    rintro β q w b s2 hq hinv1 ⟨hothers, hstood, htlb⟩ hlegal hexec
    obtain ⟨w', rfl, hn, hinv', hothers'⟩ := Triple.next_of_exec hprompt hinv1 hothers hlegal hexec
    refine ⟨w', rfl, hn, hinv', hothers', hstood.trans (Sys.exec_stood hq hexec), fun i hi ↦ ?_⟩
    rw [hinv1.tlb_of_free hlegal hq hexec ((hstood.held i).trans hi), htlb i hi]
  obtain ⟨⟨s1, m, o'⟩, rfl, -, ⟨rfl, hstood, htlb⟩, hat, hQ⟩ := Prog.wp_run_yields World.sys hnext
    hstill (h s F ⟨s, H + F, o⟩ hK (.refl hinv rfl) hP) hinv ⟨rfl, .refl s, fun _ _ ↦ rfl⟩ hrun
  have hm := hat.mine
  dsimp only at hm
  subst hm
  exact ⟨hat.inv, hat.keeps, hQ, hstood, htlb⟩

end Still

namespace Space

variable {μ : Mode} {i : SpaceId} {s : Sys} {F H K o : Multiset Handle} {α : Type}

theorem lock_alone (hprompt : μ.prompt = false) (hinv : Inv μ ⟨s, F, o⟩) (hi : i < s.nextSpace) :
    Ends (.step (.lockSpace i)) s fun c s1 ↦ c = s.space i ∧
      Inv μ ⟨s1, {lock (.space i)} + c.sites + F, o⟩ ∧ Keeps F s s1 ∧ Sound μ i ∅ c s1 ∧
      s.held (.space i) = false ∧
      s1 = { s with held := Function.update s.held (.space i) true } := by
  intro c s1 hrun
  obtain ⟨hinv1, hkeeps, hsound⟩ := lock_spec.ends (F := F) hprompt zero_le
    (by rwa [zero_add]) hi c s1 hrun
  obtain ⟨_, _, hexec, hpure⟩ := Prog.run_op_done _ hrun
  cases hpure
  obtain ⟨hfree, rfl, rfl⟩ := Sys.lock_ok hexec
  exact ⟨rfl, hinv1, hkeeps, hsound, hfree, rfl⟩

theorem unlock_alone {c : Space} (hprompt : μ.prompt = false)
    (hinv : Inv μ ⟨s, {lock (.space i)} + c.sites + F, o⟩) (hsound : Sound μ i ∅ c s) :
    Ends (.step (.unlockSpace i c)) s fun _ s1 ↦ Inv μ ⟨s1, F, o⟩ ∧ Keeps F s s1 ∧
      s1 = { s with
        space := Function.update s.space i c
        held := Function.update s.held (.space i) false } := by
  intro r s1 hrun
  obtain ⟨hinv1, hkeeps, -⟩ := unlock_spec.ends (F := F) hprompt zero_le hinv hsound r s1 hrun
  obtain ⟨_, _, hexec, hpure⟩ := Prog.run_op_done _ hrun
  cases hpure
  cases hexec
  rw [zero_add] at hinv1
  exact ⟨hinv1, hkeeps, rfl⟩

/-- The state in which a space has just been unlocked. -/
def unlocked (i : SpaceId) (c : Space) (s : Sys) : Sys :=
  { s with space := Function.update s.space i c, held := Function.update s.held (.space i) false }

theorem withLock_alone {busy : α} {body : Space → Code (α × Space)} {G : α → Multiset Handle}
    {P : Sys → Prop} {R : α × Space → Sys → Prop} (hprompt : μ.prompt = false) (hK : K ≤ F)
    (hinv : Inv μ ⟨s, H + F, o⟩) (hi : i < s.nextSpace) (hbusy : G busy = H)
    (hP : P { s with held := Function.update s.held (.space i) true })
    (hstill : (s.space i).vmaSnapshot.Good → Still (body (s.space i)))
    (hbody : (s.space i).closing = false → (s.space i).Wf →
      Triple μ K ({lock (.space i)} + (s.space i).sites + H)
        (fun s1 ↦ Sound μ i ∅ (s.space i) s1 ∧ P s1) (body (s.space i))
        (fun r ↦ {lock (.space i)} + r.2.sites + G r.1) fun r s1 ↦ Sound μ i ∅ r.2 s1 ∧ R r s1) :
    Ends (withLock i busy body) s fun r s' ↦ Inv μ ⟨s', G r + F, o⟩ ∧ s.OnlySpace i s' ∧
      Keeps F s s' ∧
      ((s.space i).closing = true ∧ r = busy ∧ s'.space i = s.space i ∧ s'.tlb i = s.tlb i ∨
        ((s.space i).Wf ∧ (s'.space i).Wf) ∧ ∃ s2, R (r, s'.space i) s2 ∧
          Keeps (G r + F) s2 s' ∧ s' = unlocked i (s'.space i) s2) := by
  refine (lock_alone hprompt hinv hi).bind ?_
  rintro _ s1 ⟨rfl, hinv1, hkeeps1, hsound1, hfree, hs1⟩
  have hfinish : ∀ {s2 : Sys} {c : Space} {r : α}, s1.Stood s2 →
      (∀ j, s1.held (.space j) = false → s2.tlb j = s1.tlb j) →
      Inv μ ⟨s2, {lock (.space i)} + c.sites + (G r + F), o⟩ → Sound μ i ∅ c s2 →
      Ends (do .step (.unlockSpace i c); pure r) s2 fun r' s' ↦ r' = r ∧
        Inv μ ⟨s', G r + F, o⟩ ∧ s.OnlySpace i s' ∧ Keeps (G r + F) s2 s' ∧
        s' = unlocked i c s2 := by
    intro s2 c r hstood htlb hinv2 hsound2
    refine (unlock_alone hprompt hinv2 hsound2).bind ?_
    rintro _ s3 ⟨hinv3, hkeeps3, hs3⟩
    have hother : ∀ {j}, j ≠ i → s1.held (.space j) = s.held (.space j) := fun {j} hj ↦ by
      rw [hs1]
      exact Function.update_of_ne (fun h ↦ hj (LockId.space.inj h)) _ _
    rw [hs3] at hinv3 hkeeps3 ⊢
    refine Prog.ends_pure ⟨rfl, hinv3, ⟨fun j hj ↦ ?_, ?_, fun j ↦ ?_, ?_, fun j hj hj' ↦ ?_⟩,
      hkeeps3, rfl⟩
    · exact (Function.update_of_ne hj _ _).trans (by rw [hstood.space, hs1])
    · exact hstood.nextSpace.trans (by rw [hs1])
    · by_cases hj : j = i
      · rw [hj, hfree]
        exact Function.update_self ..
      · rw [← hother hj, ← hstood.held]
        exact Function.update_of_ne (fun h ↦ hj (LockId.space.inj h)) _ _
    · exact hstood.brk.trans (by rw [hs1])
    · exact (htlb j ((hother hj).trans hj')).trans (by rw [hs1])
  have hF : F ≤ H + F := le_add_left le_rfl
  by_cases hclosing : (s.space i).closing = true
  · rw [if_pos hclosing]
    refine (hfinish (r := busy) (.refl s1) (fun _ _ ↦ rfl) (by rwa [hbusy]) hsound1).mono ?_
    rintro r s' ⟨rfl, hinv', honly, hkeeps, hs'⟩
    refine ⟨hinv', honly, (hkeeps1.mono hF).trans (hkeeps.mono (le_add_left le_rfl)),
      .inl ⟨hclosing, rfl, ?_, ?_⟩⟩
    · rw [hs']
      exact Function.update_self ..
    · rw [hs', hs1]
      rfl
  · rw [if_neg hclosing]
    rw [Bool.not_eq_true] at hclosing
    have hinv2 : Inv μ ⟨s1, {lock (.space i)} + (s.space i).sites + H + F, o⟩ := by
      rwa [← add_assoc] at hinv1
    refine ((hbody hclosing hsound1.wf).still_ends (hstill hsound1.wf.snapshot) hprompt hK hinv2
      ⟨hsound1, hs1 ▸ hP⟩).bind ?_
    rintro ⟨r, c⟩ s2 ⟨hinv3, hkeeps2, ⟨hsound3, hR⟩, hstood, htlb⟩
    rw [add_assoc] at hinv3
    refine (hfinish hstood htlb hinv3 hsound3).mono ?_
    rintro r' s' ⟨rfl, hinv', honly, hkeeps, hs'⟩
    have hspace : s'.space i = c := by
      rw [hs']
      exact Function.update_self ..
    rw [hspace]
    exact ⟨hinv', honly, ((hkeeps1.mono hF).trans hkeeps2).trans (hkeeps.mono (le_add_left le_rfl)),
      .inr ⟨⟨hsound1.wf, hsound3.wf⟩, s2, hR, hkeeps, hs'⟩⟩

theorem withLock_destroy_alone {β : Type} {busy : α} {body : Space → Code (α × Space)}
    (removed : α → List Binding) (result : α → β) {P : Sys → Prop} {R : α × Space → Prop}
    (hprompt : μ.prompt = false) (hK : K ≤ F) (hinv : Inv μ ⟨s, H + F, o⟩) (hi : i < s.nextSpace)
    (hbusy : bindingSites (removed busy) = H)
    (hP : P { s with held := Function.update s.held (.space i) true })
    (hstill : (s.space i).vmaSnapshot.Good → Still (body (s.space i)))
    (hbody : (s.space i).closing = false → (s.space i).Wf →
      Triple μ K ({lock (.space i)} + (s.space i).sites + H)
        (fun s1 ↦ Sound μ i ∅ (s.space i) s1 ∧ P s1) (body (s.space i))
        (fun r ↦ {lock (.space i)} + r.2.sites + bindingSites (removed r.1))
        fun r s1 ↦ Sound μ i ∅ r.2 s1 ∧ R r) :
    Ends (do
      let r ← withLock i busy body
      Binding.listDestroy (removed r)
      pure (result r)) s fun x s' ↦ Inv μ ⟨s', F, o⟩ ∧ s.OnlySpace i s' ∧
        ((s.space i).closing = true ∧ x = result busy ∧ s'.space i = s.space i ∨
          ((s.space i).Wf ∧ (s'.space i).Wf) ∧ ∃ r, result r = x ∧ R (r, s'.space i)) := by
  refine (withLock_alone (G := fun r ↦ bindingSites (removed r)) (R := fun r _ ↦ R r) hprompt hK
    hinv hi hbusy hP hstill hbody).bind ?_
  rintro r s1 ⟨hinv1, honly, -, hcases⟩
  refine ((Binding.listDestroy_spec (removed r)).still_ends (Binding.still_listDestroy _) hprompt
    zero_le hinv1 trivial).bind ?_
  rintro _ s2 ⟨hinv2, -, -, hstood, htlb⟩
  rw [zero_add] at hinv2
  refine Prog.ends_pure ⟨hinv2, honly.stood hstood htlb, ?_⟩
  rw [hstood.space]
  rcases hcases with ⟨hclosing, rfl, hspace, -⟩ | ⟨hwf, -, hR, -⟩
  · exact .inl ⟨hclosing, rfl, hspace⟩
  · exact .inr ⟨hwf, r, rfl, hR⟩

theorem Unchanged.pteAt {c c' : Space} (h : Unchanged c c') (hwf : c.Wf) (hwf' : c'.Wf) (a : ℕ) :
    c'.pteAt a = c.pteAt a := by
  rw [Space.pteAt, Space.pteAt, hwf.has.lookup, hwf'.has.lookup, h.entries]

/-- A call on a space has done all of it, or nothing at all. -/
def AllOrNothing (μ : Mode) (i : SpaceId) (s : Sys) (o : Multiset Handle) (status : Status)
    (done : Space → Prop) (s' : Sys) : Prop :=
  Inv μ ⟨s', 0, o⟩ ∧ s.OnlySpace i s' ∧
    (status = .ok ∧ done (s'.space i) ∨ status ≠ .ok ∧ Unchanged (s.space i) (s'.space i) ∧
      ∀ a, (s'.space i).pteAt a = (s.space i).pteAt a)

section AllOrNothing

variable {s' : Sys} {status : Status} {done : Space → Prop}

theorem AllOrNothing.nothing (hinv : Inv μ ⟨s, 0, o⟩) (hstatus : status ≠ .ok) :
    AllOrNothing μ i s o status done s :=
  ⟨hinv, .refl s i, .inr ⟨hstatus, .refl _, fun _ ↦ rfl⟩⟩

theorem AllOrNothing.succeeded (h : AllOrNothing μ i s o status done s') (hstatus : status = .ok) :
    done (s'.space i) ∧ ∀ j, j ≠ i → s'.space j = s.space j := by
  obtain ⟨-, honly, ⟨-, hdone⟩ | ⟨hbad, -⟩⟩ := h
  · exact ⟨hdone, honly.other⟩
  · exact absurd hstatus hbad

theorem AllOrNothing.untouched (h : AllOrNothing μ i s o status done s') (hinv : Inv μ ⟨s, 0, o⟩)
    (hstatus : status ≠ .ok) : s.Untouched s' := by
  obtain ⟨hinv', honly, ⟨hok, -⟩ | ⟨-, hsame, hpte⟩⟩ := h
  · exact absurd hok hstatus
  have hfield : ∀ {β : Type} (f : Space → β), (∀ c t, f (c.setTable t) = f c) → ∀ j,
      f (s'.space j) = f (s.space j) := by
    intro β f hf j
    by_cases hj : j = i
    · rw [hj, ← hsame.rest, hf]
    · rw [honly.other j hj]
  refine ⟨hfield _ fun _ _ ↦ rfl, hfield _ fun _ _ ↦ rfl, hfield _ fun _ _ ↦ rfl, fun j a ↦ ?_,
    hfield _ fun _ _ ↦ rfl, ?_⟩
  · by_cases hj : j = i
    · rw [hj, hpte]
    · rw [honly.other j hj]
  · exact hinv.sameEntryCounts hinv' honly
      (PageTable.Same.sites (t := (s.space i).pageTable) hsame.entries)

theorem AllOrNothing.of_stood {s1 s' : Sys} {status : Status} {done : Space → Prop}
    (hs : s.Stood s1) (htlb : ∀ j, s.held (.space j) = false → s1.tlb j = s.tlb j)
    (h : AllOrNothing μ i s1 o status done s') : AllOrNothing μ i s o status done s' := by
  obtain ⟨hinv, honly, hcases⟩ := h
  rw [hs.space] at hcases
  exact ⟨hinv, ((Sys.OnlySpace.refl s i).stood hs htlb).trans honly, hcases⟩

theorem withLock_destroy_status {β : Type} {busy : α} {body : Space → Code (α × Space)}
    (removed : α → List Binding) (result : α → β) (statusOf : β → Status) {D : β → Space → Prop}
    {P : Sys → Prop} {R : α × Space → Prop} (hprompt : μ.prompt = false) (hinv : Inv μ ⟨s, H, o⟩)
    (hi : i < s.nextSpace) (hbusy : bindingSites (removed busy) = H)
    (hclosed : statusOf (result busy) ≠ .ok)
    (hP : P { s with held := Function.update s.held (.space i) true })
    (hstill : (s.space i).vmaSnapshot.Good → Still (body (s.space i)))
    (hbody : Triple μ 0 ({lock (.space i)} + (s.space i).sites + H)
      (fun s1 ↦ Sound μ i ∅ (s.space i) s1 ∧ P s1) (body (s.space i))
      (fun r ↦ {lock (.space i)} + r.2.sites + bindingSites (removed r.1))
      fun r s1 ↦ Sound μ i ∅ r.2 s1 ∧ R r)
    (hdone : ∀ {r : α × Space}, (s.space i).Wf → r.2.Wf → R r →
      statusOf (result r.1) = .ok ∧ D (result r.1) r.2 ∨
        statusOf (result r.1) ≠ .ok ∧ Unchanged (s.space i) r.2) :
    Ends (do
      let r ← withLock i busy body
      Binding.listDestroy (removed r)
      pure (result r)) s fun x ↦ AllOrNothing μ i s o (statusOf x) (D x) := by
  refine (withLock_destroy_alone removed result (P := P) (R := R) hprompt (K := 0) zero_le (F := 0)
    (by rwa [add_zero]) hi hbusy hP hstill fun _ _ ↦ hbody).mono ?_
  rintro x s' ⟨hinv', honly, ⟨-, rfl, hspace⟩ | ⟨⟨hwf, hwf'⟩, r, rfl, hR⟩⟩
  · refine ⟨hinv', honly, .inr ⟨hclosed, ?_⟩⟩
    rw [hspace]
    exact ⟨.refl _, fun _ ↦ rfl⟩
  · refine ⟨hinv', honly, (hdone (r := (r, s'.space i)) hwf hwf' hR).imp_right fun hfail ↦ ?_⟩
    exact ⟨hfail.1, hfail.2, hfail.2.pteAt hwf hwf'⟩

theorem withLock_destroy_plain_status {β : Type} {busy : α} {body : Space → Code (α × Space)}
    (removed : α → List Binding) (result : α → β) (statusOf : β → Status) {D : β → Space → Prop}
    {R : α × Space → Prop} (hprompt : μ.prompt = false) (hinv : Inv μ ⟨s, 0, o⟩)
    (hi : i < s.nextSpace) (hbusy : bindingSites (removed busy) = 0)
    (hclosed : statusOf (result busy) ≠ .ok)
    (hstill : (s.space i).vmaSnapshot.Good → Still (body (s.space i)))
    (hbody : Triple μ 0 ({lock (.space i)} + (s.space i).sites) (Sound μ i ∅ (s.space i))
      (body (s.space i)) (fun r ↦ {lock (.space i)} + r.2.sites + bindingSites (removed r.1))
      fun r s1 ↦ Sound μ i ∅ r.2 s1 ∧ R r)
    (hdone : ∀ {r : α × Space}, (s.space i).Wf → r.2.Wf → R r →
      statusOf (result r.1) = .ok ∧ D (result r.1) r.2 ∨
        statusOf (result r.1) ≠ .ok ∧ Unchanged (s.space i) r.2) :
    Ends (do
      let r ← withLock i busy body
      Binding.listDestroy (removed r)
      pure (result r)) s fun x ↦ AllOrNothing μ i s o (statusOf x) (D x) := by
  refine withLock_destroy_status removed result statusOf (P := fun _ ↦ True) hprompt hinv hi hbusy
    hclosed trivial hstill ?_ hdone
  rw [add_zero]
  exact hbody.pre (fun _ h ↦ h.1)

theorem withLock_status {closed : Status} {body : Space → Code (Status × Space)}
    {R : Status × Space → Sys → Prop} {D : Sys → Space → Prop} (hprompt : μ.prompt = false)
    (hinv : Inv μ ⟨s, 0, o⟩) (hi : i < s.nextSpace) (hclosed : closed ≠ .ok)
    (hstill : (s.space i).vmaSnapshot.Good → Still (body (s.space i)))
    (hbody : (s.space i).Wf → Works μ 0 i (s.space i) (body (s.space i)) R)
    (hdone : ∀ {r : Status × Space} {s1 : Sys}, (s.space i).Wf → r.2.Wf → R r s1 →
      r.1 = .ok ∧ D (unlocked i r.2 s1) r.2 ∨ r.1 ≠ .ok ∧ Unchanged (s.space i) r.2) :
    Ends (withLock i closed body) s fun status s' ↦ AllOrNothing μ i s o status (D s') s' := by
  refine (withLock_alone (G := fun _ ↦ 0) (P := fun _ ↦ True) (R := R) hprompt (K := 0)
    zero_le (H := 0) (F := 0) hinv hi rfl trivial hstill fun _ hwf ↦ ?_).mono ?_
  · rw [add_zero]
    exact (hbody hwf).conseq (fun _ h ↦ h.1) (fun _ ↦ add_zero _) fun _ _ h ↦ h
  · rintro status s' ⟨hinv', honly, -, ⟨-, rfl, hspace, -⟩ | ⟨⟨hwf, hwf'⟩, s1, hR, -, hs'⟩⟩
    · refine ⟨hinv', honly, .inr ⟨hclosed, ?_⟩⟩
      rw [hspace]
      exact ⟨.refl _, fun _ ↦ rfl⟩
    · have hcases := hdone (r := (status, s'.space i)) hwf hwf' hR
      rw [← hs'] at hcases
      refine ⟨hinv', honly, hcases.imp_right fun hfail ↦ ?_⟩
      exact ⟨hfail.1, hfail.2, hfail.2.pteAt hwf hwf'⟩

end AllOrNothing

end Space

/-! ## An example

A space with one private page, which has been written, on a host where only some allocations
succeed. -/

namespace Pool

def writeOnePage : List Task :=
  [.call .spaceCreate, .call (.mmap 0 onePage), .call (.write 0 0x100000 [1] 5)]

def written (allocations : ℕ) : Option Pool :=
  performAll false 200 writeOnePage ⟨.created
    { Host.reliable with alloc := fun n ↦ decide (n < allocations) }
    (fun _ ↦ ⟨fun _ ↦ 0, .ok⟩) 4 4, 0, 0⟩

theorem reachable_written {allocations : ℕ} {p : Pool} (h : written allocations = some p) :
    Reachable false p :=
  (Reachable.create ..).performAll h

/-- The space is there, and a call on it ends with a status. -/
def answers {α : Type} (code : Code α) (statusOf : α → Status) (status : Status)
    (p : Pool) : Bool :=
  decide (0 < p.sys.nextSpace) &&
    match code.run p.sys with
    | .done r _ => decide (statusOf r = status)
    | _ => false

theorem answers_run {α : Type} {code : Code α} {statusOf : α → Status} {status : Status} {p : Pool}
    (h : answers code statusOf status p = true) :
    0 < p.sys.nextSpace ∧ ∃ r s', code.run p.sys = .done r s' ∧ statusOf r = status := by
  rw [answers, Bool.and_eq_true, decide_eq_true_eq] at h
  obtain ⟨hi, h⟩ := h
  split at h
  · rename_i r s' hrun
    exact ⟨hi, r, s', hrun, of_decide_eq_true h⟩
  · cases h

end Pool

end MiniMM
