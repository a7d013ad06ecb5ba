import MiniMM.Binding.Status

/-!
# Sequences of calls

Bindings, offsets and rights over all sequences of calls on a system.
-/

namespace MiniMM

open Vma Code

/-- The calls on spaces and notes. -/
inductive Call where
  | spaceCreate
  | spaceDestroy (i : SpaceId)
  | fork (i : SpaceId)
  | flushTlb (i : SpaceId)
  | mmap (i : SpaceId) (args : MmapArgs)
  | munmap (i : SpaceId) (address length : ℕ)
  | mprotect (i : SpaceId) (address length : ℕ) (protection : Prot)
  | mremap (i : SpaceId) (oldAddress oldLength newLength : ℕ) (flags : MremapFlags) (hint : ℕ)
  | mappingCopy (i : SpaceId) (source length hint : ℕ)
  | brk (i : SpaceId) (requestedEnd : ℕ)
  | sbrk (i : SpaceId) (increment : ℤ)
  | handlePageFault (i : SpaceId) (address : ℕ) (access : Access)
  | getFaultTrace (i : SpaceId)
  | clearFaultTrace (i : SpaceId)
  | read (i : SpaceId) (source length spin : ℕ)
  | write (i : SpaceId) (destination : ℕ) (bytes : List UInt8) (spin : ℕ)
  | edit (i : SpaceId) (destination : ℕ) (bytes : List UInt8) (spin : ℕ)
  | msync (i : SpaceId) (address length : ℕ)
  | mincore (i : SpaceId) (address length count : ℕ)
  | mlock (i : SpaceId) (address length : ℕ)
  | munlock (i : SpaceId) (address length : ℕ)
  | madvise (i : SpaceId) (address length : ℕ) (advice : Advice)
  | noteCreate (size : ℕ) (rights : NoteRights)
  | noteOpenFd (bytes : ByteFile.Bytes) (size : ℕ) (rights : NoteRights)
  | noteCopy (n : NoteId) (rights : NoteRights)
  | noteResize (n : NoteId) (size : ℕ)
  | noteRetain (n : NoteId)
  | noteRelease (n : NoteId)
  | notePread (n : NoteId) (offset length : ℕ)
  | notePwrite (n : NoteId) (offset : ℕ) (source : List UInt8)
  | notePedit (n : NoteId) (offset : ℕ) (source : List UInt8)
  | noteFlush (n : NoteId)

namespace Call

/-- The code of a call, its answer left aside. -/
def code : Call → Code Unit
  | spaceCreate => ignore Space.create
  | spaceDestroy i => Space.destroy i
  | fork i => ignore (Space.fork i)
  | flushTlb i => ignore (Space.flushTlb i)
  | mmap i args => ignore (Space.mmap i args)
  | munmap i address length => ignore (Space.munmap i address length)
  | mprotect i address length protection => ignore (Space.mprotect i address length protection)
  | mremap i oldAddress oldLength newLength flags hint =>
    ignore (Space.mremap i oldAddress oldLength newLength flags hint)
  | mappingCopy i source length hint => ignore (Space.mappingCopy i source length hint)
  | brk i requestedEnd => ignore (Space.brk i requestedEnd)
  | sbrk i increment => ignore (Space.sbrk i increment)
  | handlePageFault i address access => ignore (Space.handlePageFault i address access)
  | getFaultTrace i => ignore (Space.getFaultTrace i)
  | clearFaultTrace i => ignore (Space.clearFaultTrace i)
  | read i source length spin => ignore (Space.read i source length spin)
  | write i destination bytes spin => ignore (Space.write i destination bytes spin)
  | edit i destination bytes spin => ignore (Space.edit i destination bytes spin)
  | msync i address length => ignore (Space.msync i address length)
  | mincore i address length count => ignore (Space.mincore i address length count)
  | mlock i address length => ignore (Space.mlock i address length)
  | munlock i address length => ignore (Space.munlock i address length)
  | madvise i address length advice => ignore (Space.madvise i address length advice)
  | noteCreate size rights => ignore (Note.create size rights)
  | noteOpenFd bytes size rights => ignore (Note.openFd bytes size rights)
  | noteCopy n rights => ignore (Note.copy n rights)
  | noteResize n size => ignore (Note.resize n size)
  | noteRetain n => Note.retain n
  | noteRelease n => Note.release n
  | notePread n offset length => ignore (Note.pread n offset length)
  | notePwrite n offset source => ignore (Note.pwrite n offset source)
  | notePedit n offset source => ignore (Note.pedit n offset source)
  | noteFlush n => ignore (Note.flush n)
where
  ignore {α : Type} (p : Code α) : Code Unit := p >>= fun _ ↦ pure ()

/-- The space that a call is for. -/
def space? : Call → Option SpaceId
  | spaceDestroy i | fork i | flushTlb i | mmap i _ | munmap i _ _ | mprotect i _ _ _
  | mremap i _ _ _ _ _ | mappingCopy i _ _ _ | brk i _ | sbrk i _ | handlePageFault i _ _
  | getFaultTrace i | clearFaultTrace i | read i _ _ _ | write i _ _ _ | edit i _ _ _
  | msync i _ _ | mincore i _ _ _ | mlock i _ _ | munlock i _ _ | madvise i _ _ _ => some i
  | _ => none

/-- The note that a call names. -/
def note? : Call → Option NoteId
  | mmap _ args => args.note
  | noteCopy n _ | noteResize n _ | noteRetain n | noteRelease n | notePread n _ _
  | notePwrite n _ _ | notePedit n _ _ | noteFlush n => some n
  | _ => none

/-- The call names what has been made. -/
structure Legal (s : Sys) (k : Call) : Prop where
  space : ∀ i, k.space? = some i → i < s.nextSpace
  note : ∀ n, k.note? = some n → n < s.nextNote

theorem onward {s : Sys} {k : Call} (h : s.Tidy s.space 0) (hk : k.Legal s) :
    Ends k.code s fun _ s' ↦ s.Onward s' := by
  have hignore : ∀ {α : Type} {p : Code α}, (Ends p s fun _ s' ↦ s.Onward s') →
      Ends (code.ignore p) s fun _ s' ↦ s.Onward s' := fun hp ↦
    hp.bind fun _ _ h' ↦ Prog.ends_pure h'
  cases k with
  | spaceCreate => exact hignore (Space.create_ends h)
  | spaceDestroy i => exact Space.destroy_ends (hk.space i rfl) h
  | fork i => exact hignore (Space.fork_ends (hk.space i rfl) h)
  | flushTlb i => exact hignore (Space.flushTlb_ends (hk.space i rfl) h)
  | mmap i args => exact hignore (Space.mmap_ends (hk.space i rfl) h hk.note)
  | munmap i => exact hignore (Space.munmap_ends (hk.space i rfl) h _ _)
  | mprotect i => exact hignore (Space.mprotect_ends (hk.space i rfl) h _ _ _)
  | mremap i => exact hignore (Space.mremap_ends (hk.space i rfl) h _ _ _ _ _)
  | mappingCopy i => exact hignore (Space.mappingCopy_ends (hk.space i rfl) h _ _ _)
  | brk i => exact hignore (Space.brk_ends (hk.space i rfl) h _)
  | sbrk i => exact hignore (Space.sbrk_ends (hk.space i rfl) h _)
  | handlePageFault i => exact hignore (Space.handlePageFault_ends (hk.space i rfl) h _ _)
  | getFaultTrace i => exact hignore (Space.getFaultTrace_ends (hk.space i rfl) h)
  | clearFaultTrace i => exact hignore (Space.clearFaultTrace_ends (hk.space i rfl) h)
  | read i => exact hignore (Space.accessMemory_ends (hk.space i rfl) h _ _ _ _)
  | write i => exact hignore (Space.accessMemory_ends (hk.space i rfl) h _ _ _ _)
  | edit i => exact hignore (Space.accessMemory_ends (hk.space i rfl) h _ _ _ _)
  | msync i => exact hignore (Space.msync_ends (hk.space i rfl) h _ _)
  | mincore i => exact hignore (Space.mincore_ends (hk.space i rfl) h _ _ _)
  | mlock i => exact hignore (Space.mlock_ends (hk.space i rfl) h _ _)
  | munlock i => exact hignore (Space.munlock_ends (hk.space i rfl) h _ _)
  | madvise i => exact hignore (Space.madvise_ends (hk.space i rfl) h _ _ _)
  | noteCreate => exact hignore (Note.calm_create.onward h)
  | noteOpenFd => exact hignore (Note.calm_openFd.onward h)
  | noteCopy => exact hignore (Note.calm_copy.onward h)
  | noteResize n size => exact hignore (Note.resize_onward h n size)
  | noteRetain => exact Note.silent_retain.calm.onward h
  | noteRelease => exact Note.silent_release.calm.onward h
  | notePread => exact hignore (Note.silent_pread.calm.onward h)
  | notePwrite => exact hignore (Note.silent_pwrite.calm.onward h)
  | notePedit => exact hignore (Note.silent_pedit.calm.onward h)
  | noteFlush => exact hignore (Note.silent_flush.calm.onward h)

end Call

namespace Sys

variable {s s' s'' : Sys} {i : SpaceId}

/-- A sequence of calls, each of which returns before the next. -/
inductive Runs : Sys → Sys → Prop where
  | refl (s : Sys) : Runs s s
  | call {s s' s'' : Sys} {k : Call} : Runs s s' → k.Legal s' → k.code.run s' = .done () s'' →
      Runs s s''

/-- The states that sequences of calls reach from a new system. -/
def Reachable (s : Sys) : Prop :=
  ∃ host file pageCount tlbEntries, Runs (created host file pageCount tlbEntries) s

/-- The state after the calls, if they are legal and all return. -/
def after (s : Sys) : List Call → Option Sys
  | [] => some s
  | k :: rest =>
    if (∀ i ∈ k.space?, i < s.nextSpace) ∧ ∀ n ∈ k.note?, n < s.nextNote then
      match k.code.run s with
      | .done _ s' => after s' rest
      | _ => none
    else none

theorem Runs.trans (h : Runs s s') (h' : Runs s' s'') : Runs s s'' := by
  induction h' with
  | refl => exact h
  | call _ hlegal hcode ih => exact ih.call hlegal hcode

theorem runs_after {calls : List Call} (h : s.after calls = some s') : Runs s s' := by
  induction calls generalizing s with
  | nil =>
    cases h
    exact .refl _
  | cons k rest ih =>
    rw [after] at h
    split_ifs at h with hlegal
    split at h
    · next s1 hcode =>
      exact ((Runs.refl s).call ⟨hlegal.1, hlegal.2⟩ hcode).trans (ih h)
    · cases h

theorem tidy_created (host : Host) (file : FileId → FileBacking) (pageCount tlbEntries : ℕ) :
    (created host file pageCount tlbEntries).Tidy
      (created host file pageCount tlbEntries).space 0 where
  refs := fun _ ↦ by simp [created]
  owed := fun _ hb ↦ absurd hb (Multiset.notMem_zero _)
  active := fun _ ↦ rfl
  note := fun _ hb ↦ absurd hb (Nat.not_lt_zero _)
  anonymous := fun _ hb ↦ absurd hb (Nat.not_lt_zero _)
  spaces := fun _ hi ↦ absurd hi (Nat.not_lt_zero _)

theorem Runs.onward (h : s.Tidy s.space 0) (hruns : Runs s s') : s.Onward s' := by
  induction hruns with
  | refl => exact ⟨h, .refl s⟩
  | call _ hlegal hcode ih => exact .trans ih.later (Call.onward ih.tidy hlegal _ _ hcode)

theorem Reachable.tidy (h : Reachable s) : s.Tidy s.space 0 := by
  obtain ⟨host, file, pageCount, tlbEntries, hruns⟩ := h
  exact (Runs.onward (tidy_created host file pageCount tlbEntries) hruns).tidy

end Sys

namespace Sys

variable {s s' : Sys} {i : SpaceId}

/-- The bindings of a space are one for each cookie of its mappings, whatever calls are made. A
cookie keeps its backing, and a note reaches to the end of every mapping of it. So no fault and no
synchronisation of mapped pages misses a binding or fails for its offset: if it answers `NOT_FOUND`
or `INVALID_ARGUMENT`, that is the latched error of a file. -/
theorem reachable_bindings (hs : s.Reachable) (hruns : Runs s s') (hi : i < s.nextSpace) :
    (∀ k, ((s.space i).bindings.map Binding.cookie).count k =
      if k ∈ (s.space i).vmaSnapshot.ranges.map Vma.mappingCookie then 1 else 0) ∧
    (∀ β ∈ (s.space i).bindings, ∀ γ ∈ (s'.space i).bindings, γ.cookie = β.cookie →
      γ.backing = β.backing) ∧
    (∀ γ ∈ (s'.space i).bindings, γ.cookie < (s.space i).nextMappingCookie →
      γ ∈ (s.space i).bindings) ∧
    (∀ v ∈ (s.space i).vmaSnapshot.ranges, ∃ β,
      Binding.find v.mappingCookie (s.space i).bindings = some β ∧
      ∀ n, (s.backingInfo β.backing).note = some n →
        v.noteOffset + (v.stop - v.start) ≤ s.noteSize n) ∧
    (∀ v ∈ (s.space i).vmaSnapshot.ranges, ∀ a, v.contains a = true → ∀ access, access ≠ .invalid →
      Ends (Space.handlePageFault i a access) s fun r t ↦ s.Passed t r.1) ∧
    ∀ address length, address % pageSize = 0 → 0 < length →
      (∀ a, address ≤ a → a < address + length →
        ∃ v ∈ (s.space i).vmaSnapshot.ranges, v.contains a = true) →
      Ends (Space.msync i address length) s fun status t ↦ s.Passed t status := by
  have hok := hs.tidy.spaces i hi
  have hlater := (hruns.onward hs.tidy).later.space i hi
  refine ⟨fun k ↦ ?_, fun β hβ γ hγ hcookie ↦ ?_, hlater.old, fun v hv ↦ ?_,
    fun v hv a ha access haccess ↦ Space.handlePageFault_passed hok hv ha haccess,
    fun address length haligned hlength hmapped ↦
      Space.msync_passed hok haligned hlength hmapped⟩
  · rw [hok.nodup.count]
    refine if_congr ?_ rfl rfl
    rw [List.mem_map, List.mem_map]
    constructor
    · rintro ⟨β, hβ, rfl⟩
      exact (Space.occurs_iff hok.good.ordered).1 (hok.used β hβ)
    · rintro ⟨v, hv, rfl⟩
      obtain ⟨β, hfind, -⟩ := hok.find_of_mem hv
      exact ⟨β, Binding.mem_of_find hfind⟩
  · have hmem := hlater.old γ hγ (hcookie ▸ (hok.cookie β hβ).2)
    have heq := Binding.find_eq hok.nodup hmem
    rw [hcookie, Binding.find_eq hok.nodup hβ] at heq
    cases heq
    rfl
  · obtain ⟨β, hfind, -⟩ := hok.find_of_mem hv
    exact ⟨β, hfind, fun n hn ↦ hok.reaches hv hfind hn⟩

/-- A page of a note that may only be read, mapped shared. -/
def sharedNote : Option Sys :=
  (created .reliable (fun _ ↦ ⟨fun _ ↦ 0, .ok⟩) 4 4).after
    [.spaceCreate, .noteCreate 4096 { read := true, share := true },
      .mmap 0 {
        addressHint := 0, length := 4096, noteOffset := 0, protection := { read := true }
        maximumProtection := {}, flags := { shared := true }, note := some 0 }]

theorem sharedNote_reachable : ∃ s, sharedNote = some s ∧ s.Reachable := by
  obtain ⟨s, hs⟩ := Option.isSome_iff_exists.1 (show sharedNote.isSome = true by decide +kernel)
  exact ⟨s, hs, _, _, _, _, runs_after hs⟩

theorem eq_of_sharedNote {α : Type} (f : Sys → α) {x : α} (hs : sharedNote = some s)
    (hx : sharedNote.map f = some x) : f s = x := by
  rw [hs] at hx
  exact Option.some.inj hx

/-- The statuses of a read fault and of a synchronisation of the page. -/
def sharedNoteStatuses : Option (Status × Status) := do
  let s ← sharedNote
  match (Space.handlePageFault 0 0x100000 .read).run s,
    (Space.msync 0 0x100000 4096).run s with
  | .done r _, .done status _ => some (r.1, status)
  | _, _ => none

theorem reachable_bindings_sharedNote : sharedNoteStatuses = some (.ok, .ok) ∧
    ∃ s, sharedNote = some s ∧ s.Reachable ∧
      ((s.space 0).bindings.map Binding.cookie).count 1 = 1 ∧
      (Ends (Space.handlePageFault 0 0x100000 .read) s fun r t ↦ s.Passed t r.1) ∧
      Ends (Space.msync 0 0x100000 4096) s fun status t ↦ s.Passed t status := by
  refine ⟨by decide +kernel, ?_⟩
  obtain ⟨s, hs, hreach⟩ := sharedNote_reachable
  have hnext := eq_of_sharedNote Sys.nextSpace hs (x := 1) (by decide +kernel)
  obtain ⟨v, hranges, hcookie, hstart, hstop⟩ : ∃ v : Vma, (s.space 0).vmaSnapshot.ranges = [v] ∧
      v.mappingCookie = 1 ∧ v.start = 0x100000 ∧ v.stop = 0x101000 :=
    ⟨_, eq_of_sharedNote (fun s ↦ (s.space 0).vmaSnapshot.ranges) hs rfl, rfl, rfl, rfl⟩
  obtain ⟨hcount, -, -, -, hfault, hsync⟩ :=
    reachable_bindings hreach (.refl s) (i := 0) (hnext ▸ Nat.one_pos)
  have hv : v ∈ (s.space 0).vmaSnapshot.ranges := hranges ▸ List.mem_singleton_self v
  have hcontains : ∀ a, 0x100000 ≤ a → a < 0x100000 + 4096 → v.contains a = true :=
    fun a hle hlt ↦ contains_iff.2 ⟨by omega, by omega⟩
  refine ⟨s, hs, hreach, ?_, hfault v hv _ (hcontains _ le_rfl (by decide)) _ nofun,
    hsync _ _ (by decide) (by decide) fun a hle hlt ↦ ⟨v, hv, hcontains a hle hlt⟩⟩
  rw [hcount, hranges, List.map_singleton, hcookie, if_pos (List.mem_singleton_self 1)]

end Sys

/-! ## Denied accesses -/

namespace Space

variable {i : SpaceId} {c c0 : Space} {v : Vma} {a k address spin : ℕ} {access : Access}
  {x : Transfer}

/-- The space once a denied access is on record. -/
def recordDenied (c : Space) (address : ℕ) (access : Access) : Space :=
  (c.faultBegin address access .access).2.faultTraceAppend
    (faultFail (c.faultBegin address access .access).1 .permission .permission)

/-- An access that the protection of the mapping denies is recorded, and nothing else is done. -/
theorem accessChunk_denied (hgood : c.vmaSnapshot.Good) (hv : v ∈ c.vmaSnapshot.ranges)
    (ha : v.contains a = true) (haccess : access ≠ .invalid)
    (hdenied : faultAccessIsAllowed v.prot access = false) (i : SpaceId) (completed chunk : ℕ)
    (x : Transfer) (spin : ℕ) :
    accessChunk i c a completed chunk access x spin =
      pure (.permission, c.recordDenied a access, []) := by
  have hlookup := (VmaSnapshot.lookup_eq_some hgood).2 ⟨hv, contains_iff.1 ha⟩
  have hlimit := (hgood.ordered.valid v hv).limit
  have hguard : ¬(a ≥ userAddressLimit ∨ access = .invalid) := by
    rw [contains_iff] at ha
    rintro (h | h)
    · omega
    · exact haccess h
  rw [accessChunk, hlookup]
  simp only [hdenied, if_true, accessChunk.deny, handlePageFaultLocked, if_neg hguard]
  simp only [resolveFault, faultBegin, hlookup, hdenied, if_true]
  rfl

/-- A write that reaches an address where it is denied stops there or before. -/
theorem accessLoop_denied (hgood : c0.vmaSnapshot.Good) (hv : v ∈ c0.vmaSnapshot.ranges)
    (hk : v.contains (address + k) = true) (hlength : k < x.length) (haccess : access ≠ .invalid)
    (hdenied : faultAccessIsAllowed v.prot access = false) (fuel : ℕ) (halike : Alike c0 c)
    {completed : ℕ} (hcompleted : completed ≤ k) (hfuel : x.length ≤ completed + fuel)
    (bytes : List UInt8) :
    Quiet (accessLoop i address access x spin fuel c completed bytes) fun r ↦
      r.1.1 ≠ .ok ∧ r.1.2.1 ≤ k := by
  induction fuel generalizing c completed bytes with
  | zero => omega
  | succ fuel ih =>
    rw [accessLoop, if_pos (by omega)]
    set current := address + completed
    set chunk := min (x.length - completed) (pageSize - current % pageSize) with hchunk
    have hpos : 0 < chunk := by
      have := Nat.mod_lt current (show 0 < pageSize by decide)
      omega
    by_cases hlast : completed + chunk ≤ k
    · refine (quiet_accessChunk i c current completed chunk access x spin).bind
        fun r hr ↦ ?_
      obtain ⟨status, c', data⟩ := r
      by_cases hstatus : status = .ok
      · simp only [hstatus, ne_eq, not_true_eq_false, if_false]
        exact ih (halike.trans hr) hlast (by omega) _
      · simp only [ne_eq, hstatus, not_false_eq_true, if_true]
        exact ⟨hstatus, hcompleted⟩
    · -- the chunk stays in one page, which is the page of the denied address
      have hvalid := hgood.ordered.valid v hv
      have hcurrent : v.contains current = true := by
        have hstart := hvalid.startAligned
        rw [contains_iff] at hk ⊢
        simp only [pageSize] at hchunk hstart
        omega
      have hgood' : c.vmaSnapshot.Good := halike.vmaSnapshot ▸ hgood
      have hv' : v ∈ c.vmaSnapshot.ranges := halike.vmaSnapshot ▸ hv
      dsimp only
      rw [accessChunk_denied hgood' hv' hcurrent haccess hdenied i completed chunk x spin]
      have hdenial : Status.permission ≠ .ok := by decide
      exact ⟨hdenial, hcompleted⟩

theorem accessMemory_denied {s : Sys} (hgood : (s.space i).vmaSnapshot.Good)
    (hv : v ∈ (s.space i).vmaSnapshot.ranges) (hk : v.contains (address + k) = true)
    (hlength : k < x.length) (haccess : access ≠ .invalid)
    (hdenied : faultAccessIsAllowed v.prot access = false) :
    Ends (accessMemory i address access x spin) s fun r _ ↦ r.1 ≠ .ok ∧ r.2.1 ≤ k := by
  refine ends_ite (fun hempty ↦ Prog.ends_pure ⟨?_, Nat.zero_le k⟩) fun _ ↦ ?_
  · rcases hempty with hinvalid | hzero
    · exact hinvalid
    · omega
  refine (lockSpace_ends i s).bind ?_
  rintro _ s1 ⟨rfl, -⟩
  refine ends_ite (fun _ ↦ ?_) fun _ ↦ ?_
  · exact ends_exec rfl (Prog.ends_pure ⟨nofun, Nat.zero_le k⟩)
  · refine ((accessLoop_denied hgood hv hk hlength haccess hdenied x.length (.refl _)
      (Nat.zero_le k) (by omega) []).ends s1).bind fun r s2 hr ↦ ?_
    exact ends_exec rfl (Prog.ends_pure hr.1)

end Space

namespace Sys

variable {s s' : Sys} {i : SpaceId} {v : Vma} {n : NoteId} {β : Binding}

theorem SpaceOk.covers {c : Space} (h : s.SpaceOk c) (hv : v ∈ c.vmaSnapshot.ranges)
    (hβ : Binding.find v.mappingCookie c.bindings = some β)
    (hn : (s.backingInfo β.backing).note = some n) :
    (s.noteInfo n).rights.Covers v.shared v.maxProt := by
  obtain ⟨γ, hγ, hbacks⟩ := h.find_of_mem hv
  rw [hβ] at hγ
  cases hγ
  exact hbacks.rights n hn

theorem not_allowed_of_covers {rights : NoteRights} {access : Access}
    (hcovers : rights.Covers true v.maxProt) (hwithin : v.prot.within v.maxProt = true)
    (hwrite : rights.write = false) (haccess : access = .write ∨ access = .edit) :
    faultAccessIsAllowed v.prot access = false := by
  have hmax : v.maxProt.write = false := by
    by_contra hne
    exact absurd (hcovers.write rfl (Bool.not_eq_false _ ▸ hne)) (by simp [hwrite])
  have hprot : v.prot.write = false := by
    by_contra hne
    simp [Prot.within, hmax, hne] at hwithin
  rcases haccess with rfl | rfl <;> simp [faultAccessIsAllowed, hprot]

/-- Whatever calls are made, the protection of a mapping is within its ceiling, the ceiling within
the rights of its note, and the rights are those of its creation. So a note without the right to
write is not written through a shared mapping: an access there is recorded as denied and does
nothing else, and a call whose range meets the mapping stops before it. -/
theorem reachable_ceiling (hs : s.Reachable) :
    (∀ i < s.nextSpace, ∀ v ∈ (s.space i).vmaSnapshot.ranges,
      v.prot.within v.maxProt = true ∧ ∃ β,
        Binding.find v.mappingCookie (s.space i).bindings = some β ∧
        ∀ n, (s.backingInfo β.backing).note = some n →
          (s.noteInfo n).rights.read = true ∧
          (v.shared = true → (s.noteInfo n).rights.share = true) ∧
          (v.shared = true → v.maxProt.write = true → (s.noteInfo n).rights.write = true) ∧
          (v.maxProt.edit = true → (s.noteInfo n).rights.edit = true)) ∧
    ∀ s', Runs s s' → ∀ n < s.nextNote, s'.noteInfo n = s.noteInfo n ∧
      ((s.noteInfo n).rights.write = false → ∀ i < s'.nextSpace,
        ∀ v ∈ (s'.space i).vmaSnapshot.ranges, v.shared = true → ∀ β,
        Binding.find v.mappingCookie (s'.space i).bindings = some β →
        (s'.backingInfo β.backing).note = some n →
        (∀ c, Space.Alike (s'.space i) c → ∀ access, access = .write ∨ access = .edit →
          ∀ a completed chunk x spin, v.contains a = true →
          Space.accessChunk i c a completed chunk access x spin =
            pure (.permission, c.recordDenied a access, [])) ∧
        ∀ address bytes spin k r s'', v.contains (address + k) = true → k < bytes.length →
          (Space.write i address bytes spin).run s' = .done r s'' ∨
            (Space.edit i address bytes spin).run s' = .done r s'' →
          r.1 ≠ .ok ∧ r.2.1 ≤ k) := by
  refine ⟨fun i hi v hv ↦ ?_, fun s' hruns n hn ↦ ?_⟩
  · have hok := hs.tidy.spaces i hi
    obtain ⟨β, hfind, -⟩ := hok.find_of_mem hv
    refine ⟨(hok.good.ordered.valid v hv).within, β, hfind, fun n hnote ↦ ?_⟩
    have hcovers := hok.covers hv hfind hnote
    exact ⟨hcovers.read, hcovers.share, hcovers.write, hcovers.edit⟩
  · have honward := hruns.onward hs.tidy
    have hinfo := honward.later.noteInfo n hn
    refine ⟨hinfo, fun hwrite i hi v hv hshared β hfind hnote ↦ ?_⟩
    have hok := honward.tidy.spaces i hi
    have hdenied : ∀ access, access = .write ∨ access = .edit →
        faultAccessIsAllowed v.prot access = false := fun access haccess ↦
      not_allowed_of_covers (hshared ▸ hok.covers hv hfind hnote)
        (hok.good.ordered.valid v hv).within (hinfo ▸ hwrite) haccess
    have hinvalid : ∀ access : Access, access = .write ∨ access = .edit → access ≠ .invalid := by
      rintro access (rfl | rfl) <;> exact nofun
    refine ⟨fun c halike access haccess a completed chunk x spin ha ↦ ?_,
      fun address bytes spin k r s'' hk hlength hrun ↦ ?_⟩
    · exact Space.accessChunk_denied (halike.vmaSnapshot ▸ hok.good) (halike.vmaSnapshot ▸ hv) ha
        (hinvalid access haccess) (hdenied access haccess) i completed chunk x spin
    · rcases hrun with hrun | hrun
      · exact Space.accessMemory_denied (x := .write bytes) hok.good hv hk hlength
          (hinvalid .write (.inl rfl)) (hdenied _ (.inl rfl)) r s'' hrun
      · exact Space.accessMemory_denied (x := .write bytes) hok.good hv hk hlength
          (hinvalid .edit (.inr rfl)) (hdenied _ (.inr rfl)) r s'' hrun

theorem reachable_ceiling_sharedNote : ∃ s, sharedNote = some s ∧ s.Reachable ∧
    ∀ r s', (Space.write 0 0x100000 [7] 1).run s = .done r s' → r.1 ≠ .ok ∧ r.2.1 = 0 := by
  obtain ⟨s, hs, hreach⟩ := sharedNote_reachable
  have hspace := eq_of_sharedNote Sys.nextSpace hs (x := 1) (by decide +kernel)
  have hnote := eq_of_sharedNote Sys.nextNote hs (x := 1) (by decide +kernel)
  have hwrite := eq_of_sharedNote (fun s ↦ (s.noteInfo 0).rights.write) hs (x := false)
    (by decide +kernel)
  have hrange := eq_of_sharedNote (fun s ↦ (s.space 0).vmaSnapshot.ranges.map fun v ↦
    (v.mappingCookie, v.shared, v.contains 0x100000)) hs (x := [(1, true, true)])
      (by decide +kernel)
  have hbacking := eq_of_sharedNote (fun s ↦ (Binding.find 1 (s.space 0).bindings).map fun β ↦
    (s.backingInfo β.backing).note) hs (x := some (some 0)) (by decide +kernel)
  obtain ⟨v, hv, heq⟩ := List.mem_map.1 (hrange ▸ List.mem_singleton.2 rfl)
  obtain ⟨β, hβ, hn⟩ := Option.map_eq_some_iff.1 hbacking
  simp only [Prod.mk.injEq] at heq
  refine ⟨s, hs, hreach, fun r s' hrun ↦ ?_⟩
  have hdenied := ((reachable_ceiling hreach).2 s (.refl s) 0 (hnote ▸ Nat.one_pos)).2 hwrite 0
    (hspace ▸ Nat.one_pos) v hv heq.2.1 β (heq.1 ▸ hβ) hn
  have hstop := hdenied.2 0x100000 [7] 1 0 r s' heq.2.2 (by decide) (.inl hrun)
  exact ⟨hstop.1, Nat.le_zero.1 hstop.2⟩

end Sys

end MiniMM
