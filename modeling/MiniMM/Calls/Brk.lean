import MiniMM.Calls.Fork
import MiniMM.Calls.Mapping
import MiniMM.Spec.Brk

/-!
# The program break as one call

`minimm_brk` and `minimm_sbrk` when nobody else runs.
-/

namespace MiniMM

open Handle Code Vma VmaSnapshot PageTable

namespace Space

variable {μ : Mode} {i : SpaceId} {s : Sys} {o : Multiset Handle} {c c' : Space} {b : Brk}
  {start stop : ℕ}

/-! ## More heap -/

/-- `[start, stop)`, where nothing was mapped, is heap now. No page of it has an entry yet. -/
structure HeapGrown (start stop : ℕ) (c c' : Space) : Prop where
  free : ∀ a, start ≤ a → a < stop → viewAt c.vmaSnapshot.ranges a = none
  heap : ∀ a, start ≤ a → a < stop → ∃ cookie offset, viewAt c'.vmaSnapshot.ranges a =
    some ⟨cookie, offset, { read := true, write := true },
      { read := true, write := true, edit := true }, false⟩
  others : ∀ a, ¬(start ≤ a ∧ a < stop) →
    viewAt c'.vmaSnapshot.ranges a = viewAt c.vmaSnapshot.ranges a
  entries : ∀ a, c'.pteAt a = c.pteAt a
  empty : ∀ a, start ≤ a → a < stop → c'.pteAt a = none

theorem Extended.heapGrown (h : Extended start stop c c') (hc : c.Wf) (hc' : c'.Wf) :
    HeapGrown start stop c c' := by
  obtain ⟨tail, -, -, -, hinserted⟩ := h.snapshot
  have hfree : ∀ a, start ≤ a → a < stop → viewAt c.vmaSnapshot.ranges a = none :=
    fun a hge hlt ↦ hinserted.free a (contains_iff.2 ⟨hge, hlt⟩)
  have hentries : ∀ a, c'.pteAt a = c.pteAt a := fun a ↦ by
    rw [hc.pteAt, hc'.pteAt, ← h.rest]
  refine ⟨hfree, fun a hge hlt ↦ ?_, fun a ha ↦ ?_, hentries, fun a hge hlt ↦ ?_⟩
  · rw [hinserted.view, if_pos (contains_iff.2 ⟨hge, hlt⟩)]
    exact ⟨_, _, rfl⟩
  · rw [hinserted.view, if_neg (contains_iff.not.2 ha)]
  · rw [hentries, hc.pteAt_of_free (hfree a hge hlt)]

/-- The arguments with which the heap is mapped. -/
def heapArgs (start stop : ℕ) : MmapArgs where
  addressHint := start
  length := stop - start
  noteOffset := 0
  protection := { read := true, write := true }
  maximumProtection := { read := true, write := true, edit := true }
  flags := { «private» := true, anonymous := true, fixedNoreplace := true }
  note := none

theorem NewlyMapped.heapGrown {maximum : Prot} {address size : ℕ} {backing : BackingId}
    (h : NewlyMapped (heapArgs start stop) maximum address size backing c c')
    (hmaximum : MaximumOk (heapArgs start stop) maximum) (hsize : start + size = stop) :
    HeapGrown start stop c c' := by
  obtain rfl : address = start := h.fixed rfl
  obtain rfl : maximum = { read := true, write := true, edit := true } :=
    hmaximum.given (show ({ read := true, write := true, edit := true } : Prot) ≠ .none by decide)
  subst hsize
  have hfree := h.free rfl
  have hempty : ∀ a, address ≤ a → a < address + size → c'.pteAt a = none := fun a hge hlt ↦ by
    by_contra hne
    obtain ⟨pte, hpte⟩ := Option.ne_none_iff_exists'.1 hne
    cases (h.inside a pte hge hlt hpte).1
  refine ⟨fun a hge hlt ↦ (hfree a hge hlt).1, fun a hge hlt ↦ ?_, fun a ha ↦ ?_, fun a ↦ ?_,
    hempty⟩
  · rw [h.views, if_pos ⟨hge, hlt⟩]
    exact ⟨_, _, rfl⟩
  · rw [h.views, if_neg ha]
  · by_cases ha : address ≤ a ∧ a < address + size
    · rw [(hfree a ha.1 ha.2).2, hempty a ha.1 ha.2]
    · exact h.others a ha

theorem mappingAlignLength_self {length size : ℕ} (h : mappingAlignLength length = some size)
    (hlength : length % pageSize = 0) : size = length := by
  simp only [mappingAlignLength] at h
  split_ifs at h
  cases h
  simp only [pageSize] at *
  omega

theorem brkPageEnd_page (a : ℕ) : brkPageEnd a % pageSize = 0 := Nat.mul_mod_left ..

theorem le_brkPageEnd (a : ℕ) : a ≤ brkPageEnd a := by
  simp only [brkPageEnd, pageSize]
  omega

/-- What the end of the last page of the heap has moved over. -/
structure HeapMoved (oldEnd newEnd : ℕ) (c c' : Space) : Prop where
  same : newEnd = oldEnd → c' = c
  grown : oldEnd < newEnd → HeapGrown oldEnd newEnd c c'
  cut : newEnd < oldEnd → Cut newEnd (oldEnd - newEnd) c c'

theorem HeapMoved.refl (e : ℕ) (c : Space) : HeapMoved e e c c :=
  ⟨fun _ ↦ rfl, fun h ↦ absurd h (lt_irrefl _), fun h ↦ absurd h (lt_irrefl _)⟩

theorem Unchanged.trans {c'' : Space} (h : Unchanged c c') (h' : Unchanged c' c'') :
    Unchanged c c'' :=
  ⟨fun p ↦ (h'.entries p).trans (h.entries p), by rw [← h'.rest, ← h.rest]; rfl⟩

theorem HeapGrown.of_unchanged {c0 : Space} (h : HeapGrown start stop c c')
    (hsame : c.vmaSnapshot = c0.vmaSnapshot) (hentries : ∀ a, c.pteAt a = c0.pteAt a) :
    HeapGrown start stop c0 c' := by
  refine ⟨?_, h.heap, ?_, fun a ↦ (h.entries a).trans (hentries a), h.empty⟩
  · rw [← hsame]
    exact h.free
  · rw [← hsame]
    exact h.others

section

variable (hprompt : μ.prompt = false) (hinv : Inv μ ⟨s, 0, o⟩) (hi : i < s.nextSpace)

include hprompt hinv hi

theorem extendHeap_alone (base start stop : ℕ) :
    Ends (extendHeap i base start stop) s fun status ↦ AllOrNothing μ i s o status
      (HeapGrown start stop (s.space i)) := by
  refine ends_ite (fun _ ↦ Prog.ends_pure (.nothing hinv (by decide))) fun _ ↦ ?_
  refine withLock_status (D := fun _ ↦ HeapGrown start stop (s.space i)) hprompt hinv hi
    (by decide) (fun hgood ↦ still_extendHeapLocked hgood) (fun _ ↦ extendHeapLocked_spec base) ?_
  rintro ⟨status, c'⟩ s1 hwf hwf' (⟨hok, hextended⟩ | ⟨hbad, hsame⟩)
  · exact .inl ⟨hok, hextended.heapGrown hwf hwf'⟩
  · cases hsame
    exact .inr ⟨hbad, .refl _⟩

theorem brkMapRange_alone (hstart : start % pageSize = 0) (hstop : stop % pageSize = 0)
    (hlt : start < stop) :
    Ends (brkMapRange i start stop) s fun status ↦ AllOrNothing μ i s o status
      (HeapGrown start stop (s.space i)) := by
  refine (mmap_alone hprompt hinv hi (heapArgs start stop) (by rintro _ ⟨⟩)).bind ?_
  rintro ⟨status, mapped⟩ s' ⟨hinv', honly, hcases⟩
  have hgrown : status = .ok → mapped = start ∧ HeapGrown start stop (s.space i) (s'.space i) := by
    intro hok
    obtain ⟨-, maximum, size, hmaximum, hsize, hmapped⟩ := hcases.resolve_right fun h ↦ h.1 hok
    have hlength : (heapArgs start stop).length % pageSize = 0 := by
      simp only [heapArgs, pageSize] at *
      omega
    have hstop : start + size = stop := by
      rw [mappingAlignLength_self hsize hlength]
      exact Nat.add_sub_cancel' hlt.le
    exact ⟨hmapped.fixed rfl, hmapped.heapGrown hmaximum hstop⟩
  refine ends_ite (fun hmoved ↦ absurd (hgrown hmoved.1).1 hmoved.2) fun _ ↦ Prog.ends_pure ?_
  exact ⟨hinv', honly, hcases.imp (fun h ↦ ⟨h.1, (hgrown h.1).2⟩) fun h ↦ h⟩

theorem munmapHeap_alone {oldEnd newEnd : ℕ} (hold : oldEnd % pageSize = 0)
    (hnew : newEnd % pageSize = 0) :
    Ends (munmap i newEnd (oldEnd - newEnd)) s fun status ↦ AllOrNothing μ i s o status
      (HeapMoved oldEnd newEnd (s.space i)) := by
  refine (munmap_alone hprompt hinv hi newEnd (oldEnd - newEnd)).mono ?_
  rintro status s' ⟨hinv', honly, hcases⟩
  refine ⟨hinv', honly, hcases.imp_left ?_⟩
  rintro ⟨hok, size, hsize, hcut⟩
  have hpos := mappingAlignLength_pos hsize
  have heq := mappingAlignLength_self hsize (by simp only [pageSize] at *; omega)
  rw [heq] at hcut hpos
  exact ⟨hok, fun h ↦ by omega, fun h ↦ by omega, fun _ ↦ hcut⟩

theorem brkMove_alone {oldEnd newEnd : ℕ} (hold : oldEnd % pageSize = 0)
    (hnew : newEnd % pageSize = 0) (hbase : b.brkBase ≤ newEnd) :
    Ends (brkSetLocked.move i b oldEnd newEnd) s fun status ↦ AllOrNothing μ i s o status
      (HeapMoved oldEnd newEnd (s.space i)) := by
  have hmoved : ∀ {c c' : Space}, oldEnd < newEnd → HeapGrown oldEnd newEnd c c' →
      HeapMoved oldEnd newEnd c c' :=
    fun hlt h ↦ ⟨fun heq ↦ absurd heq hlt.ne', fun _ ↦ h, fun hgt ↦ absurd hgt hlt.not_gt⟩
  unfold brkSetLocked.move
  refine ends_ite (fun heq ↦ Prog.ends_pure ?_) fun hne ↦ ?_
  · rw [heq]
    exact ⟨hinv, .refl s i, .inl ⟨rfl, .refl _ _⟩⟩
  refine ends_ite (fun hempty ↦ ?_) fun _ ↦ ?_
  · have hlt : oldEnd < newEnd := lt_of_le_of_ne (hempty ▸ hbase) (Ne.symm hne)
    rw [← hempty]
    refine (brkMapRange_alone hprompt hinv hi hold hnew hlt).mono ?_
    rintro status s' ⟨hinv', honly, hcases⟩
    exact ⟨hinv', honly, hcases.imp_left fun h ↦ ⟨h.1, hmoved hlt h.2⟩⟩
  refine ends_ite (fun hall ↦ ?_) fun _ ↦ ?_
  · rw [← hall]
    exact munmapHeap_alone hprompt hinv hi hold hnew
  refine ends_ite (fun _ ↦ munmapHeap_alone hprompt hinv hi hold hnew) fun hle ↦ ?_
  have hlt : oldEnd < newEnd := lt_of_le_of_ne (not_lt.1 hle) (Ne.symm hne)
  refine (extendHeap_alone hprompt hinv hi b.brkBase oldEnd newEnd).bind ?_
  rintro status s1 ⟨hinv1, honly1, hcases1⟩
  refine ends_ite (fun hunsupported ↦ ?_) fun _ ↦ Prog.ends_pure ?_
  · -- Nothing has happened, and a mapping of its own is tried.
    obtain ⟨-, hsame, hentries⟩ := hcases1.resolve_left fun h ↦ by simp [hunsupported] at h
    refine (brkMapRange_alone hprompt hinv1 (honly1.nextSpace ▸ hi) hold hnew hlt).mono ?_
    rintro status s' ⟨hinv', honly, hcases⟩
    refine ⟨hinv', honly1.trans honly, hcases.imp (fun h ↦ ⟨h.1, hmoved hlt ?_⟩) fun h ↦
      ⟨h.1, hsame.trans h.2.1, fun a ↦ (h.2.2 a).trans (hentries a)⟩⟩
    exact h.2.of_unchanged (congrArg vmaSnapshot hsame.rest).symm hentries
  · exact ⟨hinv1, honly1, hcases1.imp_left fun h ↦ ⟨h.1, hmoved hlt h.2⟩⟩

theorem brkSetLocked_alone (b : Brk) (requestedEnd : ℕ) :
    Ends (brkSetLocked i b requestedEnd) s fun r s' ↦
      AllOrNothing μ i s o r.1
        (HeapMoved (brkPageEnd b.brkEnd) (brkPageEnd r.2.brkEnd) (s.space i)) s' ∧
      r.2 = if r.1 = .ok then { b with brkEnd := requestedEnd } else b := by
  refine ends_ite (fun _ ↦ Prog.ends_pure ⟨.nothing hinv (fun h ↦ by cases h), rfl⟩) fun hvalid ↦ ?_
  have hbase : b.brkBase ≤ brkPageEnd requestedEnd :=
    (not_lt.1 (not_or.1 hvalid).1).trans (le_brkPageEnd _)
  refine (brkMove_alone hprompt hinv hi (brkPageEnd_page b.brkEnd) (brkPageEnd_page requestedEnd)
    hbase).bind ?_
  rintro status s' ⟨hinv', honly, hcases⟩
  refine Prog.ends_pure ⟨⟨hinv', honly, hcases.imp_left fun h ↦ ⟨h.1, ?_⟩⟩, rfl⟩
  dsimp only
  rw [if_pos h.1]
  exact h.2

end

/-! ## The calls -/

/-- The break of a space has moved, and the heap with it. -/
structure BreakMoved (i : SpaceId) (s s' : Sys) : Prop where
  heap : HeapMoved (brkPageEnd (s.brk i).brkEnd) (brkPageEnd (s'.brk i).brkEnd) (s.space i)
    (s'.space i)
  base : (s'.brk i).brkBase = (s.brk i).brkBase
  spaces : ∀ j, j ≠ i → s'.space j = s.space j
  breaks : ∀ j, j ≠ i → s'.brk j = s.brk j

theorem withBrk_alone {α : Type} (body : Brk → Code (Status × Brk)) (moved : Brk → Prop)
    (result : Brk → Status × Brk → α) (hprompt : μ.prompt = false) (hinv : Inv μ ⟨s, 0, o⟩)
    (hi : i < s.nextSpace)
    (hbody : ∀ {s1 o1}, Inv μ ⟨s1, 0, o1⟩ → i < s1.nextSpace →
      Ends (body (s.brk i)) s1 fun r s' ↦
        AllOrNothing μ i s1 o1 r.1
          (HeapMoved (brkPageEnd (s.brk i).brkEnd) (brkPageEnd r.2.brkEnd) (s1.space i)) s' ∧
        (r.1 = .ok → moved r.2 ∧ r.2.brkBase = (s.brk i).brkBase) ∧
        (r.1 ≠ .ok → r.2 = s.brk i)) :
    Ends (do
        let b ← .step (.lockBrk i)
        let r ← body b
        .step (.unlockBrk i r.2)
        pure (result b r)) s fun x s' ↦ ∃ status, x = result (s.brk i) (status, s'.brk i) ∧
      (status = .ok → moved (s'.brk i) ∧ BreakMoved i s s') ∧
      (status ≠ .ok → s.Untouched s' ∧ s'.brk = s.brk) := by
  refine (lockBrk_alone hprompt hinv hi).bind ?_
  rintro _ s1 ⟨rfl, hinv1, -, hbesides1, hnext1, hbrk1, hstore1⟩
  have hinv1' : Inv μ ⟨s1, 0, {lock (.brk i)} + o⟩ := hinv1.resplit (by simp)
  refine (hbody hinv1' (hnext1 ▸ hi)).bind ?_
  rintro ⟨status, b⟩ s2 ⟨hall, hok, hbad⟩
  have hinv2 : Inv μ ⟨s2, {lock (.brk i)} + 0, o⟩ := hall.1.resplit (by simp)
  refine (unlockBrk_alone hprompt hinv2).bind ?_
  rintro _ s' ⟨-, -, hbesides, -, hbrk, hstore⟩
  have hbrk' : s'.brk = Function.update s.brk i b := by rw [hbrk, hall.2.1.brk, hbrk1]
  have hat : s'.brk i = b := by rw [hbrk', Function.update_self]
  have hspace1 : s1.space = s.space := funext fun j ↦ hbesides1.space j (by simp)
  have hspace : s'.space = s2.space := funext fun j ↦ hbesides.space j (by simp)
  refine Prog.ends_pure ⟨status, by rw [hat], fun hstatus ↦ ?_, fun hstatus ↦ ?_⟩
  · obtain ⟨hdone, hothers⟩ := hall.succeeded hstatus
    obtain ⟨hmoved, hbase⟩ := hok hstatus
    rw [hspace1, ← hspace] at hdone
    refine ⟨hat ▸ hmoved, ?_, hat ▸ hbase, fun j hj ↦ ?_, fun j hj ↦ ?_⟩
    · rw [hat]
      exact hdone
    · rw [hspace, hothers j hj, hspace1]
    · rw [hbrk', Function.update_of_ne hj]
  · obtain ⟨hmappings, hbindings, hcookie, hentries, hfaults, hcounts⟩ :=
      hall.untouched hinv1' hstatus
    rw [hspace1, ← hspace] at hmappings hbindings hcookie hentries hfaults
    rw [hstore1, ← hstore] at hcounts
    refine ⟨⟨hmappings, hbindings, hcookie, hentries, hfaults, hcounts⟩, ?_⟩
    rw [hbrk', show b = s.brk i from hbad hstatus, Function.update_eq_self]

theorem brk_alone (hprompt : μ.prompt = false) (hinv : Inv μ ⟨s, 0, o⟩) (hi : i < s.nextSpace)
    (requestedEnd : ℕ) :
    Ends (brk i requestedEnd) s fun r s' ↦ r.2 = (s'.brk i).brkEnd ∧
      (r.1 = .ok → (s'.brk i).brkEnd = (if requestedEnd ≠ 0 then requestedEnd else
        (s.brk i).brkEnd) ∧ BreakMoved i s s') ∧
      (r.1 ≠ .ok → s.Untouched s' ∧ s'.brk = s.brk) := by
  refine (withBrk_alone
    (fun b ↦ if requestedEnd ≠ 0 then brkSetLocked i b requestedEnd else pure (.ok, b))
    (fun b ↦ b.brkEnd = if requestedEnd ≠ 0 then requestedEnd else (s.brk i).brkEnd)
    (fun _ r ↦ (r.1, r.2.brkEnd)) hprompt hinv hi fun {s1 o1} hinv1 hi1 ↦ ?_).mono ?_
  · refine ends_ite (fun hgiven ↦ ?_) fun hzero ↦ Prog.ends_pure ⟨?_, ?_⟩
    · refine (brkSetLocked_alone hprompt hinv1 hi1 _ requestedEnd).mono ?_
      rintro ⟨status, b⟩ s' ⟨hall, hb⟩
      dsimp only at hb ⊢
      refine ⟨hall, fun hok ↦ ?_, fun hbad ↦ ?_⟩
      · rw [hb, if_pos hok, if_pos hgiven]
        exact ⟨rfl, rfl⟩
      · rw [hb, if_neg hbad]
    · exact ⟨hinv1, .refl s1 i, .inl ⟨rfl, .refl _ _⟩⟩
    · rw [if_neg hzero]
      exact ⟨fun _ ↦ ⟨rfl, rfl⟩, fun h ↦ absurd rfl h⟩
  · rintro _ s' ⟨status, rfl, hok, hbad⟩
    exact ⟨rfl, hok, hbad⟩

theorem sbrkTarget_ok {increment : ℤ} {requestedEnd : ℕ}
    (h : sbrkTarget b increment = .ok requestedEnd) :
    (requestedEnd : ℤ) = b.brkEnd + increment := by
  unfold sbrkTarget at h
  split_ifs at h <;> cases h <;> omega

theorem sbrkTarget_error {increment : ℤ} {status : Status}
    (h : sbrkTarget b increment = .error status) : status ≠ .ok := by
  unfold sbrkTarget at h
  split_ifs at h <;> cases h <;> decide

theorem sbrk_alone (hprompt : μ.prompt = false) (hinv : Inv μ ⟨s, 0, o⟩) (hi : i < s.nextSpace)
    (increment : ℤ) :
    Ends (sbrk i increment) s fun r s' ↦ r.2 = (s.brk i).brkEnd ∧
      (r.1 = .ok → ((s'.brk i).brkEnd : ℤ) = (s.brk i).brkEnd + increment ∧ BreakMoved i s s') ∧
      (r.1 ≠ .ok → s.Untouched s' ∧ s'.brk = s.brk) := by
  refine (withBrk_alone (fun b ↦ sbrkSetLocked i b increment)
    (fun b ↦ (b.brkEnd : ℤ) = (s.brk i).brkEnd + increment) (fun b r ↦ (r.1, b.brkEnd)) hprompt hinv
    hi fun {s1 o1} hinv1 hi1 ↦ ?_).mono ?_
  · unfold sbrkSetLocked
    split
    next status htarget =>
      refine Prog.ends_pure ⟨.nothing hinv1 (sbrkTarget_error htarget), fun hok ↦ ?_, fun _ ↦ rfl⟩
      exact absurd hok (sbrkTarget_error htarget)
    next requestedEnd htarget =>
    have hend := sbrkTarget_ok htarget
    refine ends_ite (fun _ ↦ ?_) fun hzero ↦ Prog.ends_pure ⟨?_, ?_⟩
    · refine (brkSetLocked_alone hprompt hinv1 hi1 _ requestedEnd).mono ?_
      rintro ⟨status, b⟩ s' ⟨hall, hb⟩
      dsimp only at hb ⊢
      refine ⟨hall, fun hok ↦ ?_, fun hbad ↦ ?_⟩
      · rw [hb, if_pos hok]
        exact ⟨hend, rfl⟩
      · rw [hb, if_neg hbad]
    · exact ⟨hinv1, .refl s1 i, .inl ⟨rfl, .refl _ _⟩⟩
    · rw [not_not.1 hzero, add_zero]
      exact ⟨fun _ ↦ ⟨rfl, rfl⟩, fun h ↦ absurd rfl h⟩
  · rintro _ s' ⟨status, rfl, hok, hbad⟩
    exact ⟨rfl, hok, hbad⟩

end Space

/-! ## Calls in reachable states -/

namespace Pool

variable {p : Pool} {i : SpaceId}

/-- `minimm_brk` and `minimm_sbrk` move the break and the heap with it: pages are mapped where
nothing was, or they are unmapped. A call that fails leaves the spaces, the counts of the frames and
the break untouched. -/
theorem brk_sbrk_heap (h : Reachable false p) (hi : i < p.sys.nextSpace) (requestedEnd : ℕ)
    (increment : ℤ) :
    Ends (Space.brk i requestedEnd) p.sys (fun r s' ↦ r.2 = (s'.brk i).brkEnd ∧
      (r.1 = .ok → (s'.brk i).brkEnd = (if requestedEnd ≠ 0 then requestedEnd else
        (p.sys.brk i).brkEnd) ∧ Space.BreakMoved i p.sys s') ∧
      (r.1 ≠ .ok → p.sys.Untouched s' ∧ s'.brk = p.sys.brk)) ∧
    Ends (Space.sbrk i increment) p.sys (fun r s' ↦ r.2 = (p.sys.brk i).brkEnd ∧
      (r.1 = .ok → ((s'.brk i).brkEnd : ℤ) = (p.sys.brk i).brkEnd + increment ∧
        Space.BreakMoved i p.sys s') ∧
      (r.1 ≠ .ok → p.sys.Untouched s' ∧ s'.brk = p.sys.brk)) := by
  obtain ⟨o, hinv⟩ := h.inv true
  exact ⟨Space.brk_alone rfl hinv hi requestedEnd, Space.sbrk_alone rfl hinv hi increment⟩

set_option maxRecDepth 100000 in
theorem written_sbrk : (written 40).any (answers (Space.sbrk 0 5000) Prod.fst .ok) = true := by
  decide +kernel

theorem brk_sbrk_heap_written : ∃ p s' previous, Reachable false p ∧
    (Space.sbrk 0 5000).run p.sys = .done (.ok, previous) s' ∧ Space.BreakMoved 0 p.sys s' := by
  obtain ⟨p, hp, htest⟩ := (Option.any_eq_true _ _).1 written_sbrk
  obtain ⟨hi, ⟨_, previous⟩, s', hrun, rfl⟩ := answers_run htest
  have hreach := reachable_written hp
  have hmoved := ((brk_sbrk_heap hreach hi 0 5000).2 _ s' hrun).2.1 rfl
  exact ⟨p, s', previous, hreach, hrun, hmoved.2⟩

end Pool

end MiniMM
