import MiniMM.Access
import MiniMM.MemoryApi
import MiniMM.Lib.Ring

/-!
# The fault trace

The ring of the last faults, compared with the list of all results of the fault
handler since the last clear.  Between two steps of a call other threads may do
what they like, so the results below hold for any answers to its steps.
-/

namespace MiniMM

open Code

namespace Space

/-- The ring is the same in both. -/
structure SameTrace (c c' : Space) : Prop where
  faultTrace : c'.faultTrace = c.faultTrace
  faultTraceStart : c'.faultTraceStart = c.faultTraceStart
  faultTraceCount : c'.faultTraceCount = c.faultTraceCount
  faultTraceOverwrittenCount : c'.faultTraceOverwrittenCount = c.faultTraceOverwrittenCount

theorem SameTrace.refl (c : Space) : c.SameTrace c := ⟨rfl, rfl, rfl, rfl⟩

theorem SameTrace.trans {c c' c'' : Space} (h : c.SameTrace c') (h' : c'.SameTrace c'') :
    c.SameTrace c'' :=
  ⟨h'.faultTrace.trans h.faultTrace, h'.faultTraceStart.trans h.faultTraceStart,
    h'.faultTraceCount.trans h.faultTraceCount,
    h'.faultTraceOverwrittenCount.trans h.faultTraceOverwrittenCount⟩

theorem sameTrace_setTable (c : Space) (t : PageTable) : c.SameTrace (c.setTable t) :=
  ⟨rfl, rfl, rfl, rfl⟩

theorem sameTrace_faultBegin (c : Space) (address : ℕ) (access : Access) (origin : FaultOrigin) :
    c.SameTrace (c.faultBegin address access origin).2 := ⟨rfl, rfl, rfl, rfl⟩

/-! ## The ring as a list -/

/-- The ring after the faults `log`, oldest first, since the last clear. -/
structure Logs (c : Space) (log : List FaultInfo) : Prop where
  ring : Ring.Holds faultTraceCapacity c.faultTrace c.faultTraceStart c.faultTraceCount
    ((log.drop (log.length - faultTraceCapacity)).map some)
  overwritten : c.faultTraceOverwrittenCount = min sizeMax (log.length - faultTraceCapacity)

variable {c c' : Space} {log : List FaultInfo} {fault : FaultInfo}

theorem Logs.count (h : c.Logs log) : c.faultTraceCount = min log.length faultTraceCapacity := by
  rw [h.ring.count_eq, List.length_map, List.length_drop]
  omega

theorem Logs.same (h : c.Logs log) (hsame : c.SameTrace c') : c'.Logs log := by
  obtain ⟨htrace, hstart, hcount, hover⟩ := hsame
  constructor
  · rw [htrace, hstart, hcount]
    exact h.ring
  · rw [hover]
    exact h.overwritten

theorem Logs.append (h : c.Logs log) (fault : FaultInfo) :
    (c.faultTraceAppend fault).Logs (log ++ [fault]) := by
  have hcount := h.count
  have hover := h.overwritten
  unfold faultTraceAppend
  by_cases hroom : c.faultTraceCount < faultTraceCapacity
  · rw [if_pos hroom]
    have hshort : log.length - faultTraceCapacity = 0 := by omega
    have hshort' : (log ++ [fault]).length - faultTraceCapacity = 0 := by
      rw [List.length_append, List.length_singleton]
      omega
    constructor
    · have := h.ring.push hroom (some fault)
      rw [hshort, List.drop_zero] at this
      rw [hshort', List.drop_zero, List.map_append]
      exact this
    · rw [hshort']
      rw [hshort] at hover
      exact hover
  · rw [if_neg hroom]
    have hfull : c.faultTraceCount = faultTraceCapacity := by omega
    have hlong : faultTraceCapacity ≤ log.length := by omega
    have hnext : (log ++ [fault]).length - faultTraceCapacity =
        log.length - faultTraceCapacity + 1 := by
      rw [List.length_append, List.length_singleton]
      omega
    constructor
    · have := h.ring.overwrite hfull (some fault)
      have hdrop : (log ++ [fault]).drop (log.length - faultTraceCapacity + 1) =
          (log.drop (log.length - faultTraceCapacity)).tail ++ [fault] := by
        have hpos : 0 < faultTraceCapacity := by decide
        rw [List.drop_append_of_le_length (by omega), List.tail_drop]
      rw [hnext, hdrop, List.map_append, List.map_tail]
      exact this
    · rw [hnext]
      dsimp only
      split_ifs <;> omega

/-! ## What the handler does to the ring -/

/-- The two records are of one fault. -/
structure SameFault (fault fault' : FaultInfo) : Prop where
  sequence : fault'.sequence = fault.sequence
  address : fault'.address = fault.address
  access : fault'.access = fault.access
  origin : fault'.origin = fault.origin

theorem faultMissing_sameFault (t : PageTable) (mapping : Vma) (b : BackingId)
    (kind : BackingKind) (fault : FaultInfo) :
    Returns (faultMissing t mapping b kind fault) fun r ↦ SameFault fault r.2.2 := by
  unfold faultMissing
  refine Returns.seq ?_
  rintro ⟨status, f, created⟩
  dsimp only
  split_ifs
  · exact ⟨rfl, rfl, rfl, rfl⟩
  · refine Returns.seq ?_
    rintro ⟨status, t⟩
    refine Returns.seq fun _ ↦ ?_
    dsimp only
    split_ifs
    · exact ⟨rfl, rfl, rfl, rfl⟩
    · exact ⟨rfl, rfl, rfl, rfl⟩

theorem faultCow_sameFault (t : PageTable) (mapping : Vma) (pte : Pte) (fault : FaultInfo) :
    Returns (faultCow t mapping pte fault) fun r ↦ SameFault fault r.2.2 := by
  unfold faultCow
  refine Returns.seq ?_
  rintro ⟨status, f⟩
  dsimp only
  split_ifs
  · exact ⟨rfl, rfl, rfl, rfl⟩
  · refine Returns.seq ?_
    rintro ⟨status, t⟩
    refine Returns.seq fun _ ↦ ?_
    dsimp only
    split_ifs
    · exact ⟨rfl, rfl, rfl, rfl⟩
    · exact ⟨rfl, rfl, rfl, rfl⟩

theorem faultPresent_sameFault (t : PageTable) (pte : Pte) (fault : FaultInfo) :
    Returns (faultPresent t pte fault) fun r ↦ SameFault fault r.2.2 := by
  unfold faultPresent
  split_ifs
  · exact ⟨rfl, rfl, rfl, rfl⟩
  · refine Returns.seq ?_
    rintro ⟨status, pagedIn⟩
    dsimp only
    split_ifs
    · exact ⟨rfl, rfl, rfl, rfl⟩
    all_goals
      refine Returns.seq ?_
      rintro ⟨status, t⟩
      dsimp only
      split_ifs <;> exact ⟨rfl, rfl, rfl, rfl⟩

theorem faultMapped_sameFault (c : Space) (mapping : Vma) (b : BackingId) (fault : FaultInfo) :
    Returns (faultMapped c mapping b fault) fun r ↦ SameFault fault r.2.2 := by
  unfold faultMapped
  refine Returns.seq fun info ↦ ?_
  split
  · exact faultMissing_sameFault _ _ _ _ _
  · split_ifs
    · exact faultCow_sameFault _ _ _ _
    · exact faultPresent_sameFault _ _ _

theorem resolveFault_returns (i : SpaceId) (c : Space) (fault : FaultInfo) :
    Returns (resolveFault i c fault) fun r ↦ c.SameTrace r.2.1 ∧ SameFault fault r.2.2 := by
  unfold resolveFault
  split
  · exact ⟨.refl c, rfl, rfl, rfl, rfl⟩
  · split_ifs
    · exact ⟨.refl c, rfl, rfl, rfl, rfl⟩
    · split
      · exact ⟨.refl c, rfl, rfl, rfl, rfl⟩
      · apply Prog.Yields.bind (faultMapped_sameFault _ _ _ _)
        rintro ⟨status, t, fault'⟩ hfault
        dsimp only
        split_ifs
        · exact ⟨sameTrace_setTable c _, hfault⟩
        · exact Returns.seq fun _ ↦ ⟨sameTrace_setTable c _, hfault⟩

/-- The record of a fault that the handler has completed with a status. -/
structure Reports (address : ℕ) (access : Access) (origin : FaultOrigin) (status : Status)
    (fault : FaultInfo) : Prop where
  address : fault.address = address
  access : fault.access = access
  origin : fault.origin = origin
  status : fault.status = status

/-- Every way through the handler behind its argument check returns one result and appends it,
once. -/
theorem handlePageFaultLocked_appends (i : SpaceId) (c : Space) (address : ℕ) (access : Access)
    (origin : FaultOrigin) : Returns (handlePageFaultLocked i c address access origin) fun r ↦
      if address ≥ userAddressLimit ∨ access = .invalid then r = ((.invalidArgument, none), c)
      else ∃ fault, r.1.2 = some fault ∧ Reports address access origin r.1.1 fault ∧
        ∀ log, c.Logs log → r.2.Logs (log ++ [fault]) := by
  unfold handlePageFaultLocked
  split_ifs with hbad
  · rfl
  have hbegin := sameTrace_faultBegin c address access origin
  have hfault : Reports address access origin .ok (c.faultBegin address access origin).1 :=
    ⟨rfl, rfl, rfl, rfl⟩
  generalize c.faultBegin address access origin = begun at hbegin hfault ⊢
  obtain ⟨fault, c1⟩ := begun
  refine Prog.Yields.bind (resolveFault_returns i c1 fault) ?_
  rintro ⟨status, c2, fault'⟩ ⟨hsame, hof⟩
  refine ⟨{ fault' with status := status }, rfl, ⟨?_, ?_, ?_, rfl⟩, fun log hlog ↦ ?_⟩
  · exact hof.address.trans hfault.address
  · exact hof.access.trans hfault.access
  · exact hof.origin.trans hfault.origin
  · exact (hlog.same (hbegin.trans hsame)).append _

theorem Logs.completed {i : SpaceId} {address : ℕ} {access : Access} {origin : FaultOrigin}
    {status : Status} (h : c.Logs log)
    (hgives : (handlePageFaultLocked i c address access origin).Gives ((status, some fault), c')) :
    c'.Logs (log ++ [fault]) := by
  have hr := (handlePageFaultLocked_appends i c address access origin).gives hgives
  split_ifs at hr
  · cases hr
  · obtain ⟨fault', heq, -, hlogs⟩ := hr
    cases heq
    exact hlogs log h

/-! ## Code that leaves the ring alone -/

/-- `c'` comes from `c` by completions of the handler with the results `log`, and
otherwise by changes that leave the ring alone. -/
inductive Faults (i : SpaceId) : Space → List FaultInfo → Space → Prop where
  | nil (c : Space) : Faults i c [] c
  | other {c c1 c' : Space} {log : List FaultInfo} : c.SameTrace c1 → Faults i c1 log c' →
      Faults i c log c'
  | fault {c c1 c' : Space} {log : List FaultInfo} {address : ℕ} {access : Access}
      {origin : FaultOrigin} {status : Status} {fault : FaultInfo} :
      (handlePageFaultLocked i c address access origin).Gives ((status, some fault), c1) →
      Faults i c1 log c' → Faults i c (fault :: log) c'

variable {i : SpaceId}

theorem Faults.trans {c'' : Space} {log' : List FaultInfo} (h : Faults i c log c')
    (h' : Faults i c' log' c'') : Faults i c (log ++ log') c'' := by
  induction h with
  | nil => exact h'
  | other hsame _ ih => exact .other hsame (ih h')
  | fault hgives _ ih => exact .fault hgives (ih h')

theorem SameTrace.faults (h : c.SameTrace c') : Faults i c [] c' := .other h (.nil c')

/-- The ring changes only by completions of the handler. -/
def OnlyFaults (i : SpaceId) (c c' : Space) : Prop := ∃ log, Faults i c log c'

theorem OnlyFaults.refl (c : Space) : OnlyFaults i c c := ⟨[], .nil c⟩

theorem OnlyFaults.trans {c'' : Space} (h : OnlyFaults i c c') (h' : OnlyFaults i c' c'') :
    OnlyFaults i c c'' := by
  obtain ⟨log, h⟩ := h
  obtain ⟨log', h'⟩ := h'
  exact ⟨log ++ log', h.trans h'⟩

/-- The values of a space, each with the results of the handler since the last
clear: a fault adds the result that the handler has returned. -/
inductive Traced (i : SpaceId) : List FaultInfo → Space → Prop where
  | new : Traced i [] .new
  | other {log : List FaultInfo} {c c' : Space} : Traced i log c → c.SameTrace c' →
      Traced i log c'
  | fault {log : List FaultInfo} {c c' : Space} {address : ℕ} {access : Access}
      {origin : FaultOrigin} {status : Status} {fault : FaultInfo} : Traced i log c →
      (handlePageFaultLocked i c address access origin).Gives ((status, some fault), c') →
      Traced i (log ++ [fault]) c'
  | clear {log : List FaultInfo} {s s' : Sys} : Traced i log (s.space i) →
      (clearFaultTrace i).run s = .done .ok s' → Traced i [] (s'.space i)

theorem Logs.events (h : c.Logs log) : c.faultTraceEvents =
    { count := min log.length faultTraceCapacity
      overwrittenCount := min sizeMax (log.length - faultTraceCapacity)
      events := (log.drop (log.length - faultTraceCapacity)).map some } := by
  rw [faultTraceEvents, h.ring.map_range, h.overwritten, h.count]

end Space

end MiniMM
