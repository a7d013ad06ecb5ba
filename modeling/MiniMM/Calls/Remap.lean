import MiniMM.Calls.Alone

/-!
# Moving and copying mappings

What `minimm_mremap` and `minimm_mapping_copy` leave of a space, address by address, and that they
leave the spaces untouched when they fail.
-/

namespace MiniMM

open Handle Code Vma PageTable

namespace Space

variable {μ : Mode} {i : SpaceId} {s : Sys} {o : Multiset Handle} {c c' : Space}

/-! ## Moves -/

/-- The mapping of `[oldAddress, oldAddress + oldSize)` is at `[address, address + newSize)` now,
with its backing and the entries of the pages that both have. -/
structure Moved (oldAddress oldSize address newSize : ℕ) (keep : Bool) (c c' : Space) : Prop where
  mapping : ∃ mapping v, c.vmaSnapshot.lookup oldAddress = some mapping ∧
    mapping.start = oldAddress ∧ mapping.stop = oldAddress + oldSize ∧ SameKind mapping v ∧
    c'.backingOf v.mappingCookie = c.backingOf mapping.mappingCookie ∧
    v.start = address ∧ v.stop = address + newSize ∧ ∀ a, address ≤ a → a < address + newSize →
      viewAt c'.vmaSnapshot.ranges a = some (v.view a)
  entries : ∀ a, address ≤ a → a < address + newSize → c'.pteAt a =
    if a - address < oldSize then c.pteAt (oldAddress + (a - address)) else none
  source : ∀ a, oldAddress ≤ a → a < oldAddress + oldSize → ¬(address ≤ a ∧ a < address + newSize) →
    c'.pteAt a = none ∧ viewAt c'.vmaSnapshot.ranges a =
      if keep then viewAt c.vmaSnapshot.ranges a else none
  others : ∀ a, ¬(oldAddress ≤ a ∧ a < oldAddress + oldSize) →
    ¬(address ≤ a ∧ a < address + newSize) →
    c'.pteAt a = c.pteAt a ∧ viewAt c'.vmaSnapshot.ranges a = viewAt c.vmaSnapshot.ranges a

section Pages

variable {oldAddress oldSize address newSize : ℕ} (hold : oldAddress % pageSize = 0)
  (holdSize : oldSize % pageSize = 0) (hnew : address % pageSize = 0)
  (hnewSize : newSize % pageSize = 0)

include hold holdSize hnew hnewSize

theorem moveResult_at (g : ℕ → Option Pte) (a : ℕ) :
    moveResult (oldAddress / pageSize) (oldSize / pageSize) (address / pageSize)
        (newSize / pageSize) g (a / pageSize) =
      if address ≤ a ∧ a < address + newSize then
        if a - address < oldSize then g ((oldAddress + (a - address)) / pageSize) else none
      else if oldAddress ≤ a ∧ a < oldAddress + oldSize then none
      else g (a / pageSize) := by
  simp only [pageSize] at *
  rw [moveResult]
  by_cases ha : address ≤ a ∧ a < address + newSize
  · rw [if_pos ha, if_pos (by omega)]
    have hlt : a / 4096 - address / 4096 < oldSize / 4096 ↔ a - address < oldSize := by omega
    have hpage : oldAddress / 4096 + (a / 4096 - address / 4096) =
        (oldAddress + (a - address)) / 4096 := by omega
    rw [if_congr hlt rfl rfl, hpage]
  · rw [if_neg ha, if_neg (by omega)]
    exact if_congr (by omega) rfl rfl

end Pages

theorem moved_of_outcome {oldAddress oldSize newSize : ℕ} {keep : Bool} {r : RemapResult × Space}
    (hwf : c.Wf) (hwf' : r.2.Wf) (hold : oldAddress % pageSize = 0)
    (h : MremapOutcome c oldAddress oldSize newSize keep r) (hok : r.1.1 = .ok) :
    Moved oldAddress oldSize r.1.2.1 newSize keep c r.2 := by
  obtain ⟨-, mapping, v, hlookup, hstart, hstop, hremapped, hkind, hvstart, hvstop⟩ :=
    h.resolve_right fun hbad ↦ hbad.1 hok
  have hmapping := hwf.snapshot.ordered.valid mapping ((VmaSnapshot.lookup_eq_some hwf.snapshot).1
    hlookup).1
  have hv := hremapped.snapshot.valid
  have hcontains : ∀ a, v.contains a = true ↔ r.1.2.1 ≤ a ∧ a < r.1.2.1 + newSize := fun a ↦ by
    rw [contains_iff, hvstart, hvstop]
  have hcontains' : ∀ a, mapping.contains a = true ↔
      oldAddress ≤ a ∧ a < oldAddress + oldSize := fun a ↦ by
    rw [contains_iff, hstart, hstop]
  have hsizes : oldSize % pageSize = 0 ∧ r.1.2.1 % pageSize = 0 ∧ newSize % pageSize = 0 := by
    have hstart' := hv.startAligned
    have hstop' := hv.stopAligned
    have hstop'' := hmapping.stopAligned
    rw [hvstart] at hstart'
    rw [hvstop] at hstop'
    rw [hstop] at hstop''
    simp only [pageSize] at *
    omega
  have hpte : ∀ a, r.2.pteAt a = moveResult (oldAddress / pageSize) (oldSize / pageSize)
      (r.1.2.1 / pageSize) (newSize / pageSize) c.pageTable.pte (a / pageSize) := fun a ↦ by
    rw [pteAt, hwf'.has.lookup, hremapped.entries, hstart, hstop, hvstart, hvstop,
      Nat.add_sub_cancel_left, Nat.add_sub_cancel_left]
  have hat := moveResult_at hold hsizes.1 hsizes.2.1 hsizes.2.2 c.pageTable.pte
  have hpte0 : ∀ a, c.pteAt a = c.pageTable.pte (a / pageSize) := fun a ↦ by
    rw [pteAt, hwf.has.lookup]
  refine ⟨⟨mapping, v, hlookup, hstart, hstop, hkind, hremapped.backing, hvstart, hvstop,
    fun a ha hlt ↦ ?_⟩, fun a ha hlt ↦ ?_, fun a ha hlt hnot ↦ ?_, fun a hnot hnot' ↦ ?_⟩
  · rw [hremapped.snapshot.view, if_pos ((hcontains a).2 ⟨ha, hlt⟩)]
  · rw [hpte, hat, if_pos ⟨ha, hlt⟩, hpte0]
  · rw [hpte, hat, if_neg hnot, if_pos ⟨ha, hlt⟩, hremapped.snapshot.view,
      if_neg (mt (hcontains a).1 hnot), if_pos ((hcontains' a).2 ⟨ha, hlt⟩)]
    exact ⟨rfl, rfl⟩
  · rw [hpte, hat, if_neg hnot', if_neg hnot, hpte0, hremapped.snapshot.view,
      if_neg (mt (hcontains a).1 hnot'), if_neg (mt (hcontains' a).1 hnot)]
    exact ⟨rfl, rfl⟩

theorem mremap_alone (hprompt : μ.prompt = false) (hinv : Inv μ ⟨s, 0, o⟩) (hi : i < s.nextSpace)
    (oldAddress oldLength newLength : ℕ) (flags : MremapFlags) (hint : ℕ) :
    Ends (mremap i oldAddress oldLength newLength flags hint) s fun r ↦
      AllOrNothing μ i s o r.1 fun c' ↦ ∃ oldSize newSize,
        mappingAlignLength oldLength = some oldSize ∧ mappingAlignLength newLength = some newSize ∧
        Moved oldAddress oldSize r.2 newSize flags.dontUnmap (s.space i) c' := by
  unfold mremap
  refine ends_ite (fun _ ↦ Prog.ends_pure (.nothing hinv (by decide))) fun _ ↦ ?_
  refine ends_ite (fun _ ↦ Prog.ends_pure (.nothing hinv (by decide))) fun _ ↦ ?_
  split
  swap
  · exact Prog.ends_pure (.nothing hinv (by decide))
  next oldSize newSize hold hnew =>
  refine ends_ite (fun _ ↦ Prog.ends_pure (.nothing hinv (by decide))) fun hvalid ↦ ?_
  rw [Bool.not_eq_false] at hvalid
  have haligned : oldAddress % pageSize = 0 := by
    simp only [mremapRangesAreValid, mappingRangeIsValid, Bool.and_eq_true,
      decide_eq_true_eq] at hvalid
    exact hvalid.1.1.1.2
  refine withLock_destroy_plain_status (D := fun x c' ↦ ∃ oldSize newSize,
      mappingAlignLength oldLength = some oldSize ∧ mappingAlignLength newLength = some newSize ∧
      Moved oldAddress oldSize x.2 newSize flags.dontUnmap (s.space i) c')
    (fun r : Status × ℕ × List Binding ↦ r.2.2) (fun r ↦ (r.1, r.2.1)) Prod.fst hprompt hinv hi rfl
    (by decide) (fun hgood ↦ still_mremapLocked hgood)
    (mremapLocked_spec (mappingAlignLength_page hnew) (mappingAlignLength_pos hnew)
      (mremap_apart hvalid)) fun {r} hwf hwf' houtcome ↦ ?_
  by_cases hok : r.1.1 = .ok
  · exact .inl ⟨hok, oldSize, newSize, hold, hnew, moved_of_outcome hwf hwf' haligned houtcome hok⟩
  · exact .inr ⟨hok, (houtcome.resolve_left fun h ↦ hok h.1).2⟩

/-! ## Copies -/

/-- The private mapping `[source, source + length)` has a copy at `destination`, where nothing was.
The copies of its entries are on the same frames, and a later write to either side copies the page,
if it can be written at all. -/
structure Duplicated (source length destination : ℕ) (c c' : Space) : Prop where
  mapping : ∃ mapping, c.vmaSnapshot.lookup source = some mapping ∧ mapping.start = source ∧
    mapping.stop = source + length ∧ mapping.shared = false ∧
    (∀ a, destination ≤ a → a < destination + length →
      viewAt c'.vmaSnapshot.ranges a = some { mapping.view (source + (a - destination)) with
        mappingCookie := c.nextMappingCookie } ∧
      c'.pteAt a = (c.pteAt (source + (a - destination))).map
        (copiedPte mapping.maxProt.writable)) ∧
    ∀ a, source ≤ a → a < source + length →
      c'.pteAt a = (c.pteAt a).map (sourcePte mapping.maxProt.writable)
  free : ∀ a, destination ≤ a → a < destination + length → viewAt c.vmaSnapshot.ranges a = none
  others : ∀ a, ¬(destination ≤ a ∧ a < destination + length) →
    viewAt c'.vmaSnapshot.ranges a = viewAt c.vmaSnapshot.ranges a ∧
    (¬(source ≤ a ∧ a < source + length) → c'.pteAt a = c.pteAt a)

theorem copyResult_at {source length destination : ℕ} (hsource : source % pageSize = 0)
    (hlength : length % pageSize = 0) (hdestination : destination % pageSize = 0)
    (copyOnWrite : Bool) (g : ℕ → Option Pte) (a : ℕ) :
    copyResult copyOnWrite (source / pageSize) (destination / pageSize) (length / pageSize) g
        (a / pageSize) =
      if destination ≤ a ∧ a < destination + length then
        (g ((source + (a - destination)) / pageSize)).map (copiedPte copyOnWrite)
      else if source ≤ a ∧ a < source + length then (g (a / pageSize)).map (sourcePte copyOnWrite)
      else g (a / pageSize) := by
  simp only [pageSize] at *
  rw [copyResult]
  by_cases ha : destination ≤ a ∧ a < destination + length
  · have hpage : source / 4096 + (a / 4096 - destination / 4096) =
        (source + (a - destination)) / 4096 := by omega
    rw [if_pos ha, if_pos (by omega), hpage]
  · rw [if_neg ha, if_neg (by omega)]
    exact if_congr (by omega) rfl rfl

theorem duplicated_of_copied {mapping : Vma} {source length destination : ℕ} {b : BackingId}
    (hwf : c.Wf) (hwf' : c'.Wf) (hlookup : c.vmaSnapshot.lookup source = some mapping)
    (hstart : mapping.start = source) (hstop : mapping.stop = source + length)
    (hshared : mapping.shared = false) (h : Copied mapping length destination b c c') :
    Duplicated source length destination c c' := by
  have hmapping := hwf.snapshot.ordered.valid mapping ((VmaSnapshot.lookup_eq_some hwf.snapshot).1
    hlookup).1
  have hcontains : ∀ a, (c.copyVma mapping length destination).contains a = true ↔
      destination ≤ a ∧ a < destination + length := fun a ↦ contains_iff
  have hsizes : source % pageSize = 0 ∧ length % pageSize = 0 ∧ destination % pageSize = 0 := by
    have hdestination : destination % pageSize = 0 := h.snapshot.valid.startAligned
    have hsource := hmapping.startAligned
    have hstop' := hmapping.stopAligned
    rw [hstart] at hsource
    rw [hstop] at hstop'
    simp only [pageSize] at *
    omega
  have hpte : ∀ a, c'.pteAt a = copyResult mapping.maxProt.writable (source / pageSize)
      (destination / pageSize) (length / pageSize) c.pageTable.pte (a / pageSize) := fun a ↦ by
    rw [pteAt, hwf'.has.lookup, h.entries, hstart]
  have hat := copyResult_at hsizes.1 hsizes.2.1 hsizes.2.2 mapping.maxProt.writable c.pageTable.pte
  have hpte0 : ∀ a, c.pteAt a = c.pageTable.pte (a / pageSize) := fun a ↦ by
    rw [pteAt, hwf.has.lookup]
  have hapart : ∀ a, source ≤ a → a < source + length →
      ¬(destination ≤ a ∧ a < destination + length) := by
    intro a ha hlt hin
    have hnone := Ordered.viewAt_none_iff.1 (h.snapshot.free a ((hcontains a).2 hin)) mapping
      ((VmaSnapshot.lookup_eq_some hwf.snapshot).1 hlookup).1
    rw [contains_iff.2 ⟨hstart.trans_le ha, hlt.trans_eq hstop.symm⟩] at hnone
    cases hnone
  refine ⟨⟨mapping, hlookup, hstart, hstop, hshared, fun a ha hlt ↦ ⟨?_, ?_⟩, fun a ha hlt ↦ ?_⟩,
    fun a ha hlt ↦ h.snapshot.free a ((hcontains a).2 ⟨ha, hlt⟩), fun a hnot ↦ ⟨?_, fun hnot' ↦ ?_⟩⟩
  · rw [h.snapshot.view, if_pos ((hcontains a).2 ⟨ha, hlt⟩)]
    simp only [copyVma, view, hstart, Nat.add_sub_cancel_left]
  · rw [hpte, hat, if_pos ⟨ha, hlt⟩, hpte0]
  · rw [hpte, hat, if_neg (hapart a ha hlt), if_pos ⟨ha, hlt⟩, hpte0]
  · rw [h.snapshot.view, if_neg (mt (hcontains a).1 hnot)]
  · rw [hpte, hat, if_neg hnot, if_neg hnot', hpte0]

theorem mappingCopy_alone (hprompt : μ.prompt = false) (hinv : Inv μ ⟨s, 0, o⟩)
    (hi : i < s.nextSpace) (source length hint : ℕ) :
    Ends (mappingCopy i source length hint) s fun r ↦
      AllOrNothing μ i s o r.1 fun c' ↦ ∃ size, mappingAlignLength length = some size ∧
        Duplicated source size r.2 (s.space i) c' := by
  unfold mappingCopy
  split
  · exact Prog.ends_pure (.nothing hinv (by decide))
  next size hsize =>
  refine ends_ite (fun _ ↦ Prog.ends_pure (.nothing hinv (by decide))) fun hvalid ↦ ?_
  have hsource : source % pageSize = 0 := by
    simp only [mappingRangeIsValid, not_or, Bool.not_eq_false, Bool.and_eq_true,
      decide_eq_true_eq] at hvalid
    exact hvalid.1.1.1.2
  refine withLock_destroy_plain_status (D := fun x c' ↦ ∃ size,
      mappingAlignLength length = some size ∧ Duplicated source size x.2 (s.space i) c')
    (fun r : Status × ℕ × List Binding ↦ r.2.2) (fun r ↦ (r.1, r.2.1)) Prod.fst hprompt hinv hi rfl
    (by decide) (fun hgood ↦ still_mappingCopyLocked hgood)
    (mappingCopyLocked_spec hint hsource (mappingAlignLength_page hsize))
    fun {r} hwf hwf' houtcome ↦ ?_
  rcases houtcome with ⟨hok, mapping, β, hlookup, hstart, hstop, hshared, -, hcopied⟩ | hbad
  · exact .inl ⟨hok, size, hsize, duplicated_of_copied hwf hwf' hlookup hstart hstop
      hshared hcopied⟩
  · exact .inr hbad

end Space

/-! ## Calls in reachable states -/

namespace Pool

variable {p : Pool} {i : SpaceId} {s' : Sys}

/-- `minimm_mremap` moves a mapping with its backing and the entries of the pages that both sizes
have. The other pages of the space and the other spaces are as they were. -/
theorem mremap_moves (h : Reachable false p) (hi : i < p.sys.nextSpace)
    {oldAddress oldLength newLength hint address : ℕ} {flags : MremapFlags}
    (hrun : (Space.mremap i oldAddress oldLength newLength flags hint).run p.sys =
      .done (.ok, address) s') :
    (∃ oldSize newSize, Space.mappingAlignLength oldLength = some oldSize ∧
      Space.mappingAlignLength newLength = some newSize ∧
      Space.Moved oldAddress oldSize address newSize flags.dontUnmap (p.sys.space i)
        (s'.space i)) ∧
    ∀ j, j ≠ i → s'.space j = p.sys.space j := by
  obtain ⟨o, hinv⟩ := h.inv true
  exact (Space.mremap_alone rfl hinv hi oldAddress oldLength newLength flags hint _ s'
    hrun).succeeded rfl

def moveTo : MremapFlags := { mayMove := true, fixed := true }

set_option maxRecDepth 100000 in
theorem written_moveTo : (written 25).any
    (answers (Space.mremap 0 0x100000 4096 8192 moveTo 0x200000) Prod.fst .ok) = true := by
  decide +kernel

theorem mremap_moves_fixed : ∃ p s' address newSize, Reachable false p ∧
    (Space.mremap 0 0x100000 4096 8192 moveTo 0x200000).run p.sys = .done (.ok, address) s' ∧
    ∃ oldSize, Space.Moved 0x100000 oldSize address newSize false (p.sys.space 0) (s'.space 0) := by
  obtain ⟨p, hp, htest⟩ := (Option.any_eq_true _ _).1 written_moveTo
  obtain ⟨hi, ⟨_, address⟩, s', hrun, rfl⟩ := answers_run htest
  have hreach := reachable_written hp
  obtain ⟨⟨oldSize, newSize, -, -, hmoved⟩, -⟩ := mremap_moves hreach hi hrun
  exact ⟨p, s', address, newSize, hreach, hrun, oldSize, hmoved⟩

/-- `minimm_mapping_copy` makes a private copy of a private mapping. -/
theorem mappingCopy_duplicates (h : Reachable false p) (hi : i < p.sys.nextSpace)
    {source length hint destination : ℕ}
    (hrun : (Space.mappingCopy i source length hint).run p.sys = .done (.ok, destination) s') :
    (∃ size, Space.mappingAlignLength length = some size ∧
      Space.Duplicated source size destination (p.sys.space i) (s'.space i)) ∧
    ∀ j, j ≠ i → s'.space j = p.sys.space j := by
  obtain ⟨o, hinv⟩ := h.inv true
  exact (Space.mappingCopy_alone rfl hinv hi source length hint _ s' hrun).succeeded rfl

set_option maxRecDepth 100000 in
theorem written_copy : (written 24).any (fun p ↦
    answers (Space.mappingCopy 0 0x100000 4096 addressAuto) Prod.fst .ok p &&
      answers (Space.mremap 0 0x100000 4096 8192 moveTo 0x200000) Prod.fst .outOfMemory p) =
        true := by
  decide +kernel

theorem mappingCopy_duplicates_page : ∃ p s' destination size, Reachable false p ∧
    (Space.mappingCopy 0 0x100000 4096 addressAuto).run p.sys = .done (.ok, destination) s' ∧
    Space.Duplicated 0x100000 size destination (p.sys.space 0) (s'.space 0) := by
  obtain ⟨p, hp, htest⟩ := (Option.any_eq_true _ _).1 written_copy
  rw [Bool.and_eq_true] at htest
  obtain ⟨hi, ⟨_, destination⟩, s', hrun, rfl⟩ := answers_run htest.1
  have hreach := reachable_written hp
  obtain ⟨⟨size, -, hcopied⟩, -⟩ := mappingCopy_duplicates hreach hi hrun
  exact ⟨p, s', destination, size, hreach, hrun, hcopied⟩

/-- A call of either kind that fails, at whatever point, leaves the mappings, the bindings, the
entries, the next cookie and the counts of the frames as they were. -/
theorem remap_failed (h : Reachable false p) (hi : i < p.sys.nextSpace) {code : Code (Status × ℕ)}
    (hcode : (∃ oldAddress oldLength newLength flags hint,
        code = Space.mremap i oldAddress oldLength newLength flags hint) ∨
      ∃ source length hint, code = Space.mappingCopy i source length hint)
    {status : Status} {address : ℕ} (hrun : code.run p.sys = .done (status, address) s')
    (hstatus : status ≠ .ok) :
    p.sys.Untouched s' := by
  obtain ⟨o, hinv⟩ := h.inv true
  have hends : Ends code p.sys fun r s'' ↦ r.1 ≠ .ok → p.sys.Untouched s'' := by
    rcases hcode with ⟨oldAddress, oldLength, newLength, flags, hint, rfl⟩ |
      ⟨source, length, hint, rfl⟩
    · exact (Space.mremap_alone rfl hinv hi oldAddress oldLength newLength flags hint).mono
        fun _ _ h ↦ h.untouched hinv
    · exact (Space.mappingCopy_alone rfl hinv hi source length hint).mono
        fun _ _ h ↦ h.untouched hinv
  exact hends _ s' hrun hstatus

/-- The move runs out of memory at the last of its allocations. -/
theorem remap_failed_outOfMemory : ∃ p s' address, Reachable false p ∧
    (Space.mremap 0 0x100000 4096 8192 moveTo 0x200000).run p.sys =
      .done (.outOfMemory, address) s' ∧
    ∀ a, (s'.space 0).pteAt a = (p.sys.space 0).pteAt a := by
  obtain ⟨p, hp, htest⟩ := (Option.any_eq_true _ _).1 written_copy
  rw [Bool.and_eq_true] at htest
  obtain ⟨hi, ⟨_, address⟩, s', hrun, rfl⟩ := answers_run htest.2
  have hreach := reachable_written hp
  have hsame := remap_failed hreach hi (.inl ⟨_, _, _, _, _, rfl⟩) hrun (by decide)
  exact ⟨p, s', address, hreach, hrun, hsame.entries 0⟩

end Pool

end MiniMM
