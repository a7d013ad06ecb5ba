import MiniMM.Lib.Word
import MiniMM.Space

/-!
# Reserving huge pages from a subpool

`hugetlb_reserve.c`: a subpool covers its first `minimum_pages` itself and asks
the global pool for the rest.  When the global pool refuses, the subpool takes
its own share back.  The counters are words of 32 bits.
-/

namespace MiniMM

namespace HugetlbReserve

open Word

abbrev Count := BitVec 32

/-- `MINIMM_HUGETLB_RESERVE_PAGE_LIMIT`. -/
def pageLimit : Count := 1000000

/-- `minimm_hugetlb_reserve_input_t`. -/
structure Input where
  maximumPages : Count
  minimumPages : Count
  usedBefore : Count
  requestedPages : Count
  globalFreePages : Count
  deriving DecidableEq, Repr

/-- `minimm_hugetlb_reserve_result_t`. -/
structure Result where
  requestedPages : Count := 0
  globalNeededPages : Count := 0
  allocatedPages : Count := 0
  usedBefore : Count := 0
  usedAfter : Count := 0
  rollbackPages : Count := 0
  reservationSucceeded : Bool := false
  accountingValid : Bool := false
  deriving DecidableEq, Repr

/-- `minimm_hugetlb_subpool_t`. -/
structure Subpool where
  maximumPages : Count
  minimumPages : Count
  usedPages : Count
  deriving DecidableEq, Repr

/-- `minimm_hugetlb_reserve_input_valid`. -/
def inputValid (input : Input) : Traced Bool :=
  if input.maximumPages = 0 ∨ input.maximumPages > pageLimit ∨ input.minimumPages > pageLimit ∨
      input.usedBefore > pageLimit ∨ input.requestedPages > pageLimit ∨
      input.globalFreePages > pageLimit then pure false
  else if input.minimumPages > input.maximumPages ∨ input.usedBefore > input.maximumPages ∨
      input.requestedPages = 0 then pure false
  else do
    let available ← sub input.maximumPages input.usedBefore
    pure (decide (input.requestedPages ≤ available))

/-- `minimm_hugetlb_pages_above_minimum`. -/
def pagesAboveMinimum (subpool : Subpool) : Traced Count :=
  if subpool.usedPages ≤ subpool.minimumPages then pure 0
  else sub subpool.usedPages subpool.minimumPages

/-- `minimm_hugetlb_subpool_get_pages`. -/
def subpoolGetPages (subpool : Subpool) (pages : Count) : Traced (Count × Subpool) := do
  let globalBefore ← pagesAboveMinimum subpool
  let usedPages ← add subpool.usedPages pages
  let subpool := { subpool with usedPages := usedPages }
  let globalAfter ← pagesAboveMinimum subpool
  let needed ← sub globalAfter globalBefore
  pure (needed, subpool)

/-- `minimm_hugetlb_subpool_put_pages`. -/
def subpoolPutPages (subpool : Subpool) (pages : Count) : Traced Subpool := do
  let usedPages ← sub subpool.usedPages pages
  pure { subpool with usedPages := usedPages }

/-- `minimm_hugetlb_reserve_run` after its checks. -/
def reserve (input : Input) : Traced Result := do
  let subpool : Subpool := ⟨input.maximumPages, input.minimumPages, input.usedBefore⟩
  let (globalNeededPages, subpool) ← subpoolGetPages subpool input.requestedPages
  let subpoolPages ← sub input.requestedPages globalNeededPages
  let result : Result := {
    requestedPages := input.requestedPages
    globalNeededPages := globalNeededPages
    usedBefore := input.usedBefore }
  if input.globalFreePages < globalNeededPages then do
    let subpool ← subpoolPutPages subpool subpoolPages
    pure { result with
      allocatedPages := 0
      usedAfter := subpool.usedPages
      rollbackPages := subpoolPages
      reservationSucceeded := false
      accountingValid := decide (subpool.usedPages = input.usedBefore) }
  else
    pure { result with
      allocatedPages := input.requestedPages
      usedAfter := subpool.usedPages
      rollbackPages := 0
      reservationSucceeded := true
      accountingValid := true }

/-- `minimm_hugetlb_reserve_run` after the checks on its note. -/
def reserveChecked (input : Input) : Traced (Status × Result) := do
  let valid ← inputValid input
  if valid = false then pure (.invalidArgument, {})
  else do
    let result ← reserve input
    pure (.ok, result)

/-- `minimm_hugetlb_reserve_run`. -/
def reserveRun (n : NoteId) (input : Input) : Code (Traced (Status × Result)) := do
  let noteSize ← Note.loadSize n
  if noteSize ≠ pageSize then pure (pure (.invalidArgument, {}))
  else do
    let info ← Note.info n
    if info.rights.read = false ∨ info.rights.write = false ∨ info.rights.share = false then
      pure (pure (.permission, {}))
    else pure (reserveChecked input)

/-! ## No operation wraps -/

variable {input : Input}

/-- The inputs that `minimm_hugetlb_reserve_run` works on. -/
structure Input.Valid (input : Input) : Prop where
  maximum : input.maximumPages.toNat ≤ 1000000
  minimum : input.minimumPages.toNat ≤ input.maximumPages.toNat
  requested : 0 < input.requestedPages.toNat
  fits : input.usedBefore.toNat + input.requestedPages.toNat ≤ input.maximumPages.toNat

/-- The pages that the request takes above the minimum. -/
def Input.growth (input : Input) : ℕ :=
  (input.usedBefore.toNat + input.requestedPages.toNat - input.minimumPages.toNat) -
    (input.usedBefore.toNat - input.minimumPages.toNat)

theorem inputValid_spec (input : Input) : (inputValid input).wrapped = false ∧
    ((inputValid input).value = true → input.Valid) := by
  unfold inputValid
  split_ifs with hlimit hrange
  · exact ⟨rfl, nofun⟩
  · exact ⟨rfl, nofun⟩
  simp only [not_or, gt_iff_lt, BitVec.not_lt] at hlimit hrange
  rw [sub_eq hrange.2.1, Traced.pure_bind]
  refine ⟨rfl, fun hfits ↦ ?_⟩
  have hle := of_decide_eq_true hfits
  rw [BitVec.le_def, BitVec.toNat_sub_of_le hrange.2.1] at hle
  have hrequested : input.requestedPages.toNat ≠ 0 := fun hzero ↦
    hrange.2.2 (BitVec.eq_of_toNat_eq hzero)
  have hused : input.usedBefore.toNat ≤ input.maximumPages.toNat := hrange.2.1
  have hmaximum : input.maximumPages.toNat ≤ 1000000 := hlimit.2.1
  exact ⟨hmaximum, hrange.1, by omega, by omega⟩

theorem pagesAboveMinimum_spec (subpool : Subpool) : ∃ pages,
    pagesAboveMinimum subpool = pure pages ∧
      pages.toNat = subpool.usedPages.toNat - subpool.minimumPages.toNat := by
  unfold pagesAboveMinimum
  split_ifs with hle
  · refine ⟨0, rfl, ?_⟩
    rw [BitVec.le_def] at hle
    simp
    omega
  · have hsub : subpool.minimumPages ≤ subpool.usedPages := BitVec.le_of_lt (BitVec.not_le.1 hle)
    exact ⟨_, sub_eq hsub, BitVec.toNat_sub_of_le hsub⟩

theorem subpoolGetPages_spec (subpool : Subpool) {pages : Count}
    (h : subpool.usedPages.toNat + pages.toNat < 2 ^ 32) :
    ∃ needed, subpoolGetPages subpool pages =
        pure (needed, { subpool with usedPages := subpool.usedPages + pages }) ∧
      needed.toNat = (subpool.usedPages.toNat + pages.toNat - subpool.minimumPages.toNat) -
        (subpool.usedPages.toNat - subpool.minimumPages.toNat) := by
  obtain ⟨globalBefore, hbefore, hbeforeNat⟩ := pagesAboveMinimum_spec subpool
  obtain ⟨globalAfter, hafter, hafterNat⟩ :=
    pagesAboveMinimum_spec { subpool with usedPages := subpool.usedPages + pages }
  dsimp only at hafterNat
  rw [BitVec.toNat_add_of_lt h] at hafterNat
  have hle : globalBefore ≤ globalAfter := by
    rw [BitVec.le_def]
    omega
  refine ⟨globalAfter - globalBefore, ?_, ?_⟩
  · simp [subpoolGetPages, hbefore, add_eq h, hafter, sub_eq hle]
  · rw [BitVec.toNat_sub_of_le hle, hafterNat, hbeforeNat]

/-- What a call returns, with nothing wrapped: after a refusal the subpool keeps the pages that it
asked of the global pool. -/
theorem reserve_spec (h : input.Valid) : ∃ result, reserve input = pure result ∧
    result.usedBefore = input.usedBefore ∧ result.globalNeededPages.toNat = input.growth ∧
    (result.reservationSucceeded = true ↔ input.growth ≤ input.globalFreePages.toNat) ∧
    result.usedAfter.toNat = input.usedBefore.toNat +
      (if result.reservationSucceeded = true then input.requestedPages.toNat else
        input.growth) := by
  have hfits : input.usedBefore.toNat + input.requestedPages.toNat < 2 ^ 32 := by
    have := h.maximum
    have := h.fits
    omega
  obtain ⟨needed, hget, hneeded⟩ := subpoolGetPages_spec
    ⟨input.maximumPages, input.minimumPages, input.usedBefore⟩ hfits
  change needed.toNat = input.growth at hneeded
  have hshare : input.growth ≤ input.requestedPages.toNat := by
    rw [Input.growth]
    omega
  have hsub : needed ≤ input.requestedPages := by
    rw [BitVec.le_def]
    omega
  by_cases hfree : input.globalFreePages < needed
  · have hput : input.requestedPages - needed ≤ input.usedBefore + input.requestedPages := by
      rw [BitVec.le_def, BitVec.toNat_sub_of_le hsub, BitVec.toNat_add_of_lt hfits]
      omega
    have hused : (input.usedBefore + input.requestedPages - (input.requestedPages - needed)).toNat =
        input.usedBefore.toNat + input.growth := by
      rw [BitVec.toNat_sub_of_le hput, BitVec.toNat_add_of_lt hfits, BitVec.toNat_sub_of_le hsub]
      omega
    have hreserve : reserve input = pure {
        requestedPages := input.requestedPages
        globalNeededPages := needed
        usedBefore := input.usedBefore
        usedAfter := input.usedBefore + input.requestedPages - (input.requestedPages - needed)
        rollbackPages := input.requestedPages - needed
        accountingValid := decide (input.usedBefore + input.requestedPages -
          (input.requestedPages - needed) = input.usedBefore) } := by
      simp [reserve, hget, sub_eq hsub, hfree, subpoolPutPages, sub_eq hput]
    rw [BitVec.lt_def] at hfree
    refine ⟨_, hreserve, rfl, hneeded, ?_, hused⟩
    simp only [Bool.false_eq_true, false_iff]
    omega
  · have hreserve : reserve input = pure {
        requestedPages := input.requestedPages
        globalNeededPages := needed
        allocatedPages := input.requestedPages
        usedBefore := input.usedBefore
        usedAfter := input.usedBefore + input.requestedPages
        reservationSucceeded := true
        accountingValid := true } := by
      simp [reserve, hget, sub_eq hsub, hfree]
    rw [BitVec.lt_def] at hfree
    refine ⟨_, hreserve, rfl, hneeded, ?_, BitVec.toNat_add_of_lt hfits⟩
    simp only [true_iff]
    omega

/-! ## Runs -/

variable {s : Sys} {n : NoteId}

/-- The call passes all its checks. -/
structure Admitted (s : Sys) (n : NoteId) (input : Input) : Prop where
  size : s.noteSize n = pageSize
  read : (s.noteInfo n).rights.read = true
  write : (s.noteInfo n).rights.write = true
  share : (s.noteInfo n).rights.share = true
  valid : (inputValid input).value = true

theorem reserveRun_run (h : Admitted s n input) :
    (reserveRun n input).run s = .done (reserveChecked input) s := by
  have hsize : ¬(s.noteSize n ≠ pageSize) := not_not.2 h.size
  have hrights : ¬((s.noteInfo n).rights.read = false ∨ (s.noteInfo n).rights.write = false ∨
      (s.noteInfo n).rights.share = false) := by
    simp [h.read, h.write, h.share]
  change Prog.run _ (if s.noteSize n ≠ pageSize then _ else _) s = _
  rw [if_neg hsize]
  change Prog.run _ (if _ ∨ _ ∨ _ then _ else _) s = _
  rw [if_neg hrights]
  rfl

theorem reserveRun_wrapped (n : NoteId) (input : Input) (s : Sys) :
    Code.Ends (reserveRun n input) s fun r _ ↦ r.wrapped = false := by
  have hchecked : (reserveChecked input).wrapped = false := by
    obtain ⟨hwrapped, hvalid⟩ := inputValid_spec input
    cases hvalue : (inputValid input).value with
    | false => simp [reserveChecked, hwrapped, hvalue]
    | true =>
      obtain ⟨result, hreserve, -⟩ := reserve_spec (hvalid hvalue)
      simp [reserveChecked, hwrapped, hvalue, hreserve]
  intro r s' hrun
  obtain ⟨size, s1, -, hsize⟩ := Prog.run_op_done _ hrun
  dsimp only [Prog.bind] at hsize
  split_ifs at hsize
  · cases hsize
    rfl
  obtain ⟨info, s2, -, hinfo⟩ := Prog.run_op_done _ hsize
  dsimp only [Prog.bind] at hinfo
  split_ifs at hinfo
  · cases hinfo
    rfl
  · cases hinfo
    exact hchecked

/-- A refused reservation leaves the used pages, and a granted one adds what was requested, of which
the growth above the minimum is asked of the global pool. -/
structure Accounts (input : Input) (result : Result) : Prop where
  usedBefore : result.usedBefore = input.usedBefore
  refused : result.reservationSucceeded = false → result.usedAfter = result.usedBefore
  granted : result.reservationSucceeded = true →
    result.usedAfter.toNat = result.usedBefore.toNat + input.requestedPages.toNat ∧
      result.globalNeededPages.toNat = input.growth

/-- An admitted call keeps its accounts, with no operation wrapped, if and only if the global pool
has the pages. -/
theorem reserveRun_accounts_iff (h : Admitted s n input) :
    (∃ result, (reserveRun n input).run s = .done (pure (.ok, result)) s ∧ Accounts input result) ↔
      input.growth ≤ input.globalFreePages.toNat := by
  obtain ⟨hwrapped, hvalid⟩ := inputValid_spec input
  obtain ⟨result, hreserve, hbefore, hneeded, hsucceeded, hafter⟩ := reserve_spec (hvalid h.valid)
  have hchecked : reserveChecked input = pure (.ok, result) := by
    ext <;> simp [reserveChecked, h.valid, hwrapped, hreserve]
  rw [reserveRun_run h, hchecked]
  constructor
  · rintro ⟨result', hrun, haccounts⟩
    cases hrun
    by_contra hfree
    have hrefused : result.reservationSucceeded = false := by
      simpa [hfree] using hsucceeded
    have hkept := haccounts.refused hrefused
    rw [hrefused, if_neg Bool.false_ne_true, hkept, hbefore] at hafter
    omega
  · intro hfree
    have hgranted := hsucceeded.2 hfree
    refine ⟨result, rfl, hbefore, fun hrefused ↦ ?_, fun _ ↦ ⟨?_, hneeded⟩⟩
    · cases hgranted.symm.trans hrefused
    · rw [hafter, if_pos hgranted, hbefore]

/-- A system with a note that the calls accept. -/
def onePage : Sys :=
  { Sys.created .reliable (fun _ ↦ ⟨fun _ ↦ 0, .ok⟩) 1 1 with
    noteSize := fun _ ↦ pageSize
    noteInfo := fun _ ↦ ⟨0, { read := true, write := true, share := true }, 0, false⟩ }

theorem onePage_admits (h : (inputValid input).value = true) : Admitted onePage n input :=
  ⟨rfl, rfl, rfl, rfl, h⟩

/-- Three pages, one of them above the minimum, with one in the global pool. -/
theorem reserveRun_accounts_onePage :
    ∃ result, (reserveRun 0 ⟨4, 2, 0, 3, 1⟩).run onePage = .done (pure (.ok, result)) onePage ∧
      Accounts ⟨4, 2, 0, 3, 1⟩ result :=
  (reserveRun_accounts_iff (onePage_admits (by decide))).2 (by decide)

/-- The same request with an empty global pool: a page is left behind. -/
theorem reserveRun_refused_onePage : Admitted onePage 0 ⟨4, 2, 0, 3, 0⟩ ∧
    ∃ result, (reserveRun 0 ⟨4, 2, 0, 3, 0⟩).run onePage = .done (pure (.ok, result)) onePage ∧
      result.reservationSucceeded = false ∧ result.usedBefore = 0 ∧ result.usedAfter = 1 := by
  have hadmits : Admitted onePage 0 ⟨4, 2, 0, 3, 0⟩ := onePage_admits (by decide)
  refine ⟨hadmits, ⟨3, 1, 0, 0, 1, 2, false, false⟩, ?_, rfl, rfl, rfl⟩
  rw [reserveRun_run hadmits]
  exact congrArg (Prog.Result.done · onePage) (show reserveChecked ⟨4, 2, 0, 3, 0⟩ =
    pure (.ok, ⟨3, 1, 0, 0, 1, 2, false, false⟩) by decide)

end HugetlbReserve

end MiniMM
