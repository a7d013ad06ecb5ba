import MiniMM.Note

/-!
# Reparenting an lruvec under a walk

`mglru_reparent.c`: a walk gathers what it moves between the generations of an
lruvec, and adds the batch to the lruvec later.  In between the lruvec may be
handed to its parent.  The counters are integers; those of the source are taken
to be small enough not to overflow.
-/

namespace MiniMM

namespace MglruReparent

/-- There are `MINIMM_MGLRU_REPARENT_GENERATIONS` generations. -/
abbrev Generation := Fin 2

/-- `MINIMM_MGLRU_REPARENT_OLD_GENERATION`. -/
def oldGeneration : Generation := 0

/-- `MINIMM_MGLRU_REPARENT_NEW_GENERATION`. -/
def newGeneration : Generation := 1

/-- `MINIMM_MGLRU_REPARENT_TOTAL_PAGES`. -/
def totalPages : UInt32 := 1

abbrev LruvecId := ℕ

/-- `minimm_mglru_lruvec_t`. -/
structure Lruvec where
  pages : Generation → ℤ
  dying : Bool := false
  parent : Option LruvecId := none

/-- `minimm_mglru_walk_t`. -/
structure Walk where
  lruvec : LruvecId
  nrPages : Generation → ℤ

/-- A walk and the lruvecs around it. -/
structure State where
  lruvec : LruvecId → Lruvec
  walk : Walk

namespace State

def pages (s : State) (i : LruvecId) (g : Generation) : ℤ := (s.lruvec i).pages g

def setPages (s : State) (i : LruvecId) (g : Generation) (count : ℤ) : State :=
  let lruvec := { s.lruvec i with pages := Function.update (s.lruvec i).pages g count }
  { s with lruvec := Function.update s.lruvec i lruvec }

def setBatch (s : State) (g : Generation) (count : ℤ) : State :=
  { s with walk := { s.walk with nrPages := Function.update s.walk.nrPages g count } }

end State

/-- `minimm_mglru_record_promotion`. -/
def recordPromotion (pages : UInt32) (s : State) : State :=
  let s := s.setBatch oldGeneration (s.walk.nrPages oldGeneration - pages.toNat)
  s.setBatch newGeneration (s.walk.nrPages newGeneration + pages.toNat)

/-- `minimm_mglru_reparent_lruvec`. -/
def reparentLruvec (child parent : LruvecId) (s : State) : State :=
  let dying := { s.lruvec child with dying := true, parent := some parent }
  (List.finRange 2).foldl move { s with lruvec := Function.update s.lruvec child dying }
where
  move (s : State) (g : Generation) : State :=
    (s.setPages parent g (s.pages parent g + s.pages child g)).setPages child g 0

/-- `minimm_mglru_reset_batch_size`, which looks at the lruvec of the walk only. -/
def resetBatchSize (s : State) : State :=
  (List.finRange 2).foldl flush s
where
  flush (s : State) (g : Generation) : State :=
    (s.setPages s.walk.lruvec g (s.pages s.walk.lruvec g + s.walk.nrPages g)).setBatch g 0

/-- `minimm_mglru_reparent_result_t`. -/
structure Result where
  totalPages : ℕ := 0
  parentOldPages : ℕ := 0
  parentNewPages : ℕ := 0
  childOldDebtPages : ℕ := 0
  childNewCreditPages : ℕ := 0
  exitClean : Bool := false
  accountingValid : Bool := false
  deriving DecidableEq, Repr

/-- `UINT32_MAX`. -/
def uint32Max : ℤ := 2 ^ 32 - 1

/-- `minimm_mglru_collect_result`, with no result when it fails. -/
def collectResult (child parent : Lruvec) : Option Result :=
  let childOld := child.pages oldGeneration
  let childNew := child.pages newGeneration
  let parentOld := parent.pages oldGeneration
  let parentNew := parent.pages newGeneration
  if childOld > 0 ∨ childOld < -uint32Max ∨ childNew < 0 ∨ childNew > uint32Max ∨
      parentOld < 0 ∨ parentOld > uint32Max ∨ parentNew < 0 ∨ parentNew > uint32Max then none
  else
    let exitClean := decide (childOld = 0) && decide (childNew = 0)
    some {
      totalPages := MglruReparent.totalPages.toNat
      parentOldPages := parentOld.toNat
      parentNewPages := parentNew.toNat
      childOldDebtPages := (-childOld).toNat
      childNewCreditPages := childNew.toNat
      exitClean := exitClean
      accountingValid := exitClean && decide (parentOld = 0) &&
        decide (parentNew = MglruReparent.totalPages.toNat) }

/-- The `child` of `minimm_mglru_reparent_run`. -/
def runChild : LruvecId := 0

/-- Its `parent`. -/
def runParent : LruvecId := 1

/-- The variables of `minimm_mglru_reparent_run` when it starts. -/
def runStart : State where
  lruvec i := ⟨fun g ↦ if i = runChild ∧ g = oldGeneration then 1 else 0, false, none⟩
  walk := ⟨runChild, fun _ ↦ 0⟩

/-- `minimm_mglru_reparent_run`. -/
def reparentRun (n : NoteId) : Code (Status × Result) := do
  let noteSize ← Note.loadSize n
  if noteSize ≠ pageSize then pure (.invalidArgument, {})
  else do
    let info ← Note.info n
    if info.rights.read = false ∨ info.rights.write = false ∨ info.rights.share = false then
      pure (.permission, {})
    else
      let s := recordPromotion totalPages runStart
      let s := reparentLruvec runChild runParent s
      let s := resetBatchSize s
      match collectResult (s.lruvec runChild) (s.lruvec runParent) with
      | none => pure (.io, {})
      | some result => pure (.ok, result)

/-! ## Single steps -/

variable {s : State} {i child parent : LruvecId} {g : Generation}

namespace State

theorem pages_setPages (s : State) (i j : LruvecId) (g g' : Generation) (count : ℤ) :
    (s.setPages i g count).pages j g' = if j = i ∧ g' = g then count else s.pages j g' := by
  simp only [pages, setPages, Function.update_apply]
  by_cases hj : j = i
  · simp [hj, Function.update_apply]
  · simp [hj]

theorem lruvec_setPages (s : State) (g : Generation) (count : ℤ) {j : LruvecId} (hj : j ≠ i) :
    (s.setPages i g count).lruvec j = s.lruvec j := Function.update_of_ne hj _ _

@[simp] theorem walk_setPages (s : State) (i : LruvecId) (g : Generation) (count : ℤ) :
    (s.setPages i g count).walk = s.walk := rfl

@[simp] theorem pages_setBatch (s : State) (i : LruvecId) (g g' : Generation) (count : ℤ) :
    (s.setBatch g count).pages i g' = s.pages i g' := rfl

@[simp] theorem lruvec_setBatch (s : State) (g : Generation) (count : ℤ) :
    (s.setBatch g count).lruvec = s.lruvec := rfl

@[simp] theorem walk_setBatch (s : State) (g : Generation) (count : ℤ) :
    (s.setBatch g count).walk.lruvec = s.walk.lruvec := rfl

theorem nrPages_setBatch (s : State) (g g' : Generation) (count : ℤ) :
    (s.setBatch g count).walk.nrPages g' = if g' = g then count else s.walk.nrPages g' :=
  Function.update_apply _ _ _ _

end State

open State

/-- What the promotion of one page adds to a generation. -/
def delta (g : Generation) : ℤ := if g = oldGeneration then -1 else 1

theorem delta_ne_zero (g : Generation) : delta g ≠ 0 := by
  unfold delta
  split_ifs <;> decide

theorem batch_recordPromotion (pages : UInt32) (g : Generation) :
    (recordPromotion pages s).walk.nrPages g = s.walk.nrPages g + delta g * pages.toNat := by
  fin_cases g <;> simp [recordPromotion, nrPages_setBatch, delta, oldGeneration, newGeneration]
  ring

@[simp] theorem pages_recordPromotion (pages : UInt32) (i : LruvecId) (g : Generation) :
    (recordPromotion pages s).pages i g = s.pages i g := rfl

theorem resetBatchSize_eq :
    resetBatchSize s = resetBatchSize.flush (resetBatchSize.flush s 0) 1 := rfl

@[simp] theorem batch_resetBatchSize (g : Generation) : (resetBatchSize s).walk.nrPages g = 0 := by
  fin_cases g <;> simp [resetBatchSize_eq, resetBatchSize.flush, nrPages_setBatch]

theorem pages_resetBatchSize (g : Generation) :
    (resetBatchSize s).pages s.walk.lruvec g =
      s.pages s.walk.lruvec g + s.walk.nrPages g := by
  fin_cases g <;>
    simp [resetBatchSize_eq, resetBatchSize.flush, pages_setPages, nrPages_setBatch]

theorem lruvec_resetBatchSize (hi : i ≠ s.walk.lruvec) :
    (resetBatchSize s).lruvec i = s.lruvec i := by
  simp [resetBatchSize_eq, resetBatchSize.flush, lruvec_setPages, hi]

@[simp] theorem walk_reparentLruvec : (reparentLruvec child parent s).walk = s.walk := rfl

/-- The state in which the loop of `minimm_mglru_reparent_lruvec` starts. -/
def dying (child parent : LruvecId) (s : State) : State :=
  { s with
    lruvec := Function.update s.lruvec child
      { s.lruvec child with dying := true, parent := some parent } }

theorem pages_dying (i : LruvecId) (g : Generation) :
    (dying child parent s).pages i g = s.pages i g := by
  simp only [State.pages, dying, Function.update_apply]
  split_ifs with hi
  · rw [hi]
  · rfl

theorem reparentLruvec_eq (child parent : LruvecId) (s : State) :
    reparentLruvec child parent s = reparentLruvec.move child parent
      (reparentLruvec.move child parent (dying child parent s) 0) 1 := rfl

theorem pages_reparentLruvec_child (h : parent ≠ child) (g : Generation) :
    (reparentLruvec child parent s).pages child g = 0 := by
  fin_cases g <;>
    simp [reparentLruvec_eq, reparentLruvec.move, pages_setPages, pages_dying, h.symm]

theorem pages_reparentLruvec_parent (h : parent ≠ child) (g : Generation) :
    (reparentLruvec child parent s).pages parent g = s.pages parent g + s.pages child g := by
  fin_cases g <;>
    simp [reparentLruvec_eq, reparentLruvec.move, pages_setPages, pages_dying, h, h.symm]

/-! ## Runs of a walk -/

/-- The steps of a walk. -/
inductive Step where
  | recordPromotion (pages : UInt32)
  | resetBatchSize
  deriving DecidableEq, Repr

namespace Step

def apply : Step → State → State
  | recordPromotion pages => MglruReparent.recordPromotion pages
  | resetBatchSize => MglruReparent.resetBatchSize

/-- The pages that a step promotes. -/
def promoted : Step → ℕ
  | recordPromotion pages => pages.toNat
  | resetBatchSize => 0

theorem walk_apply (e : Step) (s : State) : (e.apply s).walk.lruvec = s.walk.lruvec := by
  cases e <;> rfl

theorem total_apply (e : Step) (s : State) (g : Generation) :
    (e.apply s).pages s.walk.lruvec g + (e.apply s).walk.nrPages g =
      s.pages s.walk.lruvec g + s.walk.nrPages g + delta g * e.promoted := by
  cases e with
  | recordPromotion pages =>
    simp only [apply, promoted, batch_recordPromotion, pages_recordPromotion]
    ring
  | resetBatchSize => simp [apply, promoted, pages_resetBatchSize]

theorem lruvec_apply (e : Step) (s : State) (hi : i ≠ s.walk.lruvec) :
    (e.apply s).lruvec i = s.lruvec i := by
  cases e with
  | recordPromotion pages => rfl
  | resetBatchSize => exact lruvec_resetBatchSize hi

end Step

def run (steps : List Step) (s : State) : State := steps.foldl (fun s e ↦ e.apply s) s

/-- The pages that the steps promote. -/
def promoted (steps : List Step) : ℕ := (steps.map Step.promoted).sum

/-- The steps after the last flush. -/
def unflushed (steps : List Step) : List Step := steps.rtakeWhile (· ≠ .resetBatchSize)

theorem run_append (steps : List Step) (e : Step) (s : State) :
    run (steps ++ [e]) s = e.apply (run steps s) := by
  simp [run]

theorem promoted_append (steps steps' : List Step) :
    promoted (steps ++ steps') = promoted steps + promoted steps' := by
  simp [promoted]

theorem promoted_eq_zero {steps : List Step} :
    promoted steps = 0 ↔ ∀ pages, .recordPromotion pages ∈ steps → pages = 0 := by
  rw [promoted, List.sum_eq_zero_iff]
  constructor
  · intro h pages hmem
    exact UInt32.toNat_inj.1 (h _ (List.mem_map_of_mem hmem))
  · intro h count hcount
    obtain ⟨e, he, rfl⟩ := List.mem_map.1 hcount
    cases e with
    | recordPromotion pages => simp [Step.promoted, h pages he]
    | resetBatchSize => rfl

theorem walk_run (steps : List Step) (s : State) : (run steps s).walk.lruvec = s.walk.lruvec := by
  induction steps using List.reverseRecOn with
  | nil => rfl
  | append_singleton steps e ih => rw [run_append, Step.walk_apply, ih]

theorem total_run (steps : List Step) (s : State) (g : Generation) :
    (run steps s).pages s.walk.lruvec g + (run steps s).walk.nrPages g =
      s.pages s.walk.lruvec g + s.walk.nrPages g + delta g * promoted steps := by
  induction steps using List.reverseRecOn with
  | nil => simp [run, promoted]
  | append_singleton steps e ih =>
    have hstep := e.total_apply (run steps s) g
    rw [walk_run, ih] at hstep
    rw [run_append, hstep, promoted_append]
    simp only [promoted, List.map_cons, List.map_nil, List.sum_singleton]
    push_cast
    ring

theorem lruvec_run (steps : List Step) (s : State) (hi : i ≠ s.walk.lruvec) :
    (run steps s).lruvec i = s.lruvec i := by
  induction steps using List.reverseRecOn with
  | nil => rfl
  | append_singleton steps e ih =>
    rw [run_append, Step.lruvec_apply _ _ (by rwa [walk_run]), ih]

/-- A walk that starts with an empty batch has in it what was promoted since the last flush. -/
theorem batch_run (steps : List Step) (s : State) (hbatch : ∀ g, s.walk.nrPages g = 0)
    (g : Generation) :
    (run steps s).walk.nrPages g = delta g * promoted (unflushed steps) := by
  induction steps using List.reverseRecOn with
  | nil => simp [run, unflushed, promoted, hbatch]
  | append_singleton steps e ih =>
    rw [run_append]
    cases e with
    | recordPromotion pages =>
      rw [unflushed, List.rtakeWhile_concat_pos _ _ _ (by simp), promoted_append, Step.apply,
        batch_recordPromotion, ih, unflushed]
      simp only [promoted, List.map_cons, List.map_nil, List.sum_singleton, Step.promoted]
      push_cast
      ring
    | resetBatchSize =>
      rw [unflushed, List.rtakeWhile_concat_neg _ _ _ (by simp), Step.apply,
        batch_resetBatchSize]
      simp [promoted]

/-! ## Reparenting in the middle of a run -/

/-- A walk of `child` that has nothing in its batch. -/
structure Starts (child parent : LruvecId) (s : State) : Prop where
  apart : parent ≠ child
  walk : s.walk.lruvec = child
  batch : ∀ g, s.walk.nrPages g = 0

/-- The steps of a walk around the reparenting of its lruvec, and a flush of what is left. -/
def reparentIn (child parent : LruvecId) (before after : List Step) (s : State) : State :=
  resetBatchSize (run after (reparentLruvec child parent (run before s)))

/-- The child is left empty, and the parent has the pages of both with the promotions. -/
structure HandsOver (child parent : LruvecId) (moved : ℕ) (s s' : State) : Prop where
  emptied : ∀ g, s'.pages child g = 0
  gathered : ∀ g, s'.pages parent g = s.pages parent g + s.pages child g + delta g * moved

theorem pages_reparentIn_child (h : Starts child parent s) (before after : List Step)
    (g : Generation) : (reparentIn child parent before after s).pages child g =
      delta g * (promoted (unflushed before) + promoted after : ℕ) := by
  have hwalk : (run after (reparentLruvec child parent (run before s))).walk.lruvec = child := by
    rw [walk_run, walk_reparentLruvec, walk_run, h.walk]
  have htotal := total_run after (reparentLruvec child parent (run before s)) g
  rw [walk_reparentLruvec, walk_run, h.walk, pages_reparentLruvec_child h.apart,
    batch_run before s h.batch] at htotal
  have hflush :=
    pages_resetBatchSize (s := run after (reparentLruvec child parent (run before s))) g
  rw [hwalk, htotal] at hflush
  rw [reparentIn, hflush]
  push_cast
  ring

theorem pages_reparentIn_parent (h : Starts child parent s) (before after : List Step)
    (g : Generation) : (reparentIn child parent before after s).pages parent g =
      s.pages parent g + s.pages child g +
        delta g * (promoted before - promoted (unflushed before) : ℤ) := by
  have hwalk : (run after (reparentLruvec child parent (run before s))).walk.lruvec = child := by
    rw [walk_run, walk_reparentLruvec, walk_run, h.walk]
  have hrest : (reparentIn child parent before after s).pages parent g =
      (reparentLruvec child parent (run before s)).pages parent g := by
    rw [reparentIn, State.pages, lruvec_resetBatchSize (by rw [hwalk]; exact h.apart),
      lruvec_run _ _ (by rw [walk_reparentLruvec, walk_run, h.walk]; exact h.apart)]
    rfl
  have hparent : (run before s).pages parent g = s.pages parent g := by
    rw [State.pages, lruvec_run _ _ (by rw [h.walk]; exact h.apart)]
    rfl
  have htotal := total_run before s g
  rw [h.walk, h.batch, batch_run before s h.batch] at htotal
  rw [hrest, pages_reparentLruvec_parent h.apart, hparent]
  linear_combination htotal

/-- The pages are handed over if and only if the walk has promoted none since the last flush before
the reparenting. -/
theorem handsOver_iff (h : Starts child parent s) (before after : List Step) :
    HandsOver child parent (promoted (before ++ after)) s
        (reparentIn child parent before after s) ↔
      ∀ pages, .recordPromotion pages ∈ unflushed before ++ after → pages = 0 := by
  rw [← promoted_eq_zero, promoted_append (unflushed before)]
  constructor
  · intro hover
    have hchild := hover.emptied oldGeneration
    rw [pages_reparentIn_child h] at hchild
    exact_mod_cast (mul_eq_zero.1 hchild).resolve_left (delta_ne_zero _)
  · intro hzero
    have hafter : promoted after = 0 := by omega
    have hbefore : promoted (unflushed before) = 0 := by omega
    refine ⟨fun g ↦ ?_, fun g ↦ ?_⟩
    · rw [pages_reparentIn_child h, hzero, Nat.cast_zero, mul_zero]
    · rw [pages_reparentIn_parent h, promoted_append, hafter, hbefore, Nat.cast_zero, sub_zero,
        add_zero]

theorem runStart_starts : Starts runChild runParent runStart :=
  ⟨by decide, rfl, fun _ ↦ rfl⟩

/-- A flush before the reparenting hands over all the pages. -/
theorem handsOver_of_flush : HandsOver runChild runParent 1 runStart
    (reparentIn runChild runParent [.recordPromotion 1, .resetBatchSize] [] runStart) :=
  (handsOver_iff runStart_starts [.recordPromotion 1, .resetBatchSize] []).2
    fun _ hmem ↦ (List.not_mem_nil hmem).elim

/-- The steps of `minimm_mglru_reparent_run` do not hand them over. -/
theorem not_handsOver_run : ¬HandsOver runChild runParent 1 runStart
    (reparentIn runChild runParent [.recordPromotion totalPages] [] runStart) := by
  intro h
  have hchild := h.emptied oldGeneration
  rw [pages_reparentIn_child runStart_starts] at hchild
  exact absurd hchild (by decide)

/-- What `minimm_mglru_reparent_run` reports of them. -/
def runResult : Result where
  totalPages := 1
  parentOldPages := 1
  childOldDebtPages := 1
  childNewCreditPages := 1

theorem collectResult_run :
    let s := resetBatchSize (reparentLruvec runChild runParent
      (recordPromotion totalPages runStart))
    collectResult (s.lruvec runChild) (s.lruvec runParent) = some runResult := by
  decide

/-- A call that is not refused leaves the child with pages it does not have. -/
theorem reparentRun_ends (n : NoteId) (s : Sys) :
    Code.Ends (reparentRun n) s fun r _ ↦ r.1 = .ok → r.2 = runResult := by
  intro r s' hrun hok
  obtain ⟨size, s1, -, hsize⟩ := Prog.run_op_done _ hrun
  dsimp only [Prog.bind] at hsize
  split_ifs at hsize with hbad
  · cases hsize
    cases hok
  obtain ⟨info, s2, -, hinfo⟩ := Prog.run_op_done _ hsize
  dsimp only [Prog.bind] at hinfo
  split_ifs at hinfo with hrights
  · cases hinfo
    cases hok
  · rw [collectResult_run] at hinfo
    cases hinfo
    rfl

end MglruReparent

end MiniMM
