import MiniMM.Vma.Reach

/-!
# The search for a gap

`minimm_vma_snapshot_find_gap` with any alignment is a first fit: the candidate is never above an
address that would do, and every range that the search has passed ends at or below it.
-/

namespace MiniMM

open Vma

namespace VmaSnapshot

/-- The address is aligned, and its range lies between the bounds and meets no mapping. -/
structure Fits (ranges : List Vma) (lower upper length alignment a : ℕ) : Prop where
  lower : lower ≤ a
  aligned : a % alignment = 0
  upper : a + length ≤ upper
  free : ∀ v ∈ ranges, a + length ≤ v.start ∨ v.stop ≤ a

/-- What a search answers that finds the least address of a set. -/
def Finds (r : Status × ℕ) (fits : ℕ → Prop) : Prop :=
  (r.1 = .ok ∧ fits r.2 ∧ ∀ b, fits b → r.2 ≤ b) ∨
    (r = (.noSpace, addressAuto) ∧ ∀ b, ¬fits b)

/-! ## Alignment -/

theorem alignUp_spec {value alignment a : ℕ} (hpos : 0 < alignment)
    (h : alignUp value alignment = some a) :
    value ≤ a ∧ a % alignment = 0 ∧ ∀ b, value ≤ b → b % alignment = 0 → a ≤ b := by
  simp only [alignUp] at h
  split_ifs at h with hroom
  cases h
  refine ⟨?_, Nat.mul_mod_left _ _, fun b hle hb ↦ ?_⟩
  · have hdiv := Nat.div_add_mod (value + (alignment - 1)) alignment
    have hmod := Nat.mod_lt (value + (alignment - 1)) hpos
    rw [mul_comm] at hdiv
    omega
  · obtain ⟨k, rfl⟩ := Nat.dvd_of_mod_eq_zero hb
    rw [mul_comm alignment]
    refine Nat.mul_le_mul_right _ (Nat.lt_succ_iff.1 ?_)
    rw [Nat.div_lt_iff_lt_mul hpos, Nat.succ_mul, mul_comm k]
    omega

/-- An alignment too large to round up to leaves no address below the limit. -/
theorem alignUp_none {value alignment b : ℕ} (h : alignUp value alignment = none) (hle : value ≤ b)
    (hpos : 0 < b) (hb : b % alignment = 0) : userAddressLimit < b := by
  simp only [alignUp] at h
  split_ifs at h with hroom
  have hdvd := Nat.le_of_dvd hpos (Nat.dvd_of_mod_eq_zero hb)
  simp only [sizeMax, userAddressLimit] at hroom ⊢
  omega

/-! ## The loop -/

section Loop

variable {lower upper length alignment : ℕ}

/-- The end of the search: no range that is left lies below the upper bound. -/
theorem finds_last {ranges : List Vma} {candidate : ℕ} (hlower : lower ≤ candidate)
    (haligned : candidate % alignment = 0) (hfree : ∀ v ∈ ranges, upper ≤ v.start ∨
      v.stop ≤ candidate)
    (hleast : ∀ b, Fits ranges lower upper length alignment b → candidate ≤ b) :
    Finds (if candidate ≤ upper ∧ length ≤ upper - candidate then (.ok, candidate)
      else (.noSpace, addressAuto)) (Fits ranges lower upper length alignment) := by
  split_ifs with hroom
  · refine .inl ⟨rfl, ⟨hlower, haligned, by omega, fun v hv ↦ ?_⟩, hleast⟩
    rcases hfree v hv with h | h
    · exact .inl (by omega)
    · exact .inr h
  · refine .inr ⟨rfl, fun b hb ↦ hroom ?_⟩
    have hle := hleast b hb
    have hupper := hb.upper
    omega

theorem findGapFrom_finds {rest : List Vma} (passed : List Vma) {candidate : ℕ}
    (hordered : Ordered (passed ++ rest)) (hlimit : upper ≤ userAddressLimit)
    (hlength : 0 < length) (hpos : 0 < alignment) (hlower : lower ≤ candidate)
    (haligned : candidate % alignment = 0) (hpassed : ∀ v ∈ passed, v.stop ≤ candidate)
    (hleast : ∀ b, Fits (passed ++ rest) lower upper length alignment b → candidate ≤ b) :
    Finds (findGapFrom lower upper length alignment rest candidate)
      (Fits (passed ++ rest) lower upper length alignment) := by
  induction rest generalizing passed candidate with
  | nil =>
    rw [findGapFrom]
    refine finds_last hlower haligned (fun v hv ↦ .inr (hpassed v ?_)) hleast
    simpa using hv
  | cons v rest ih =>
    have hsplit : passed ++ v :: rest = (passed ++ [v]) ++ rest := by simp
    obtain ⟨-, htail, -⟩ := Ordered.append_iff.1 hordered
    obtain ⟨hvalid, -, hafter⟩ := Ordered.cons_iff.1 htail
    -- the search goes on behind `v` with a candidate that `v` does not reach
    have hnext : ∀ {c : ℕ}, lower ≤ c → c % alignment = 0 → v.stop ≤ c →
        candidate ≤ c → (∀ b, Fits (passed ++ v :: rest) lower upper length alignment b → c ≤ b) →
        Finds (findGapFrom lower upper length alignment rest c)
          (Fits (passed ++ v :: rest) lower upper length alignment) := by
      intro c hlow halign hstop hle hleast'
      rw [hsplit] at hordered hleast' ⊢
      refine ih (passed ++ [v]) hordered hlow halign (fun w hw ↦ ?_) hleast'
      rcases List.mem_append.1 hw with hw | hw
      · exact (hpassed w hw).trans hle
      · rw [List.mem_singleton.1 hw]
        exact hstop
    have hlt := hvalid.lt
    rw [findGapFrom]
    by_cases hbelow : v.stop ≤ lower
    · rw [if_pos hbelow]
      exact hnext hlower haligned (by omega) le_rfl hleast
    rw [if_neg hbelow]
    -- every range from `v` on starts at or above its start
    have hfrom : ∀ w ∈ passed ++ v :: rest, v.start ≤ w.start ∨ w.stop ≤ candidate := by
      intro w hw
      rcases List.mem_append.1 hw with hw | hw
      · exact .inr (hpassed w hw)
      · rcases List.mem_cons.1 hw with rfl | hw
        · exact .inl le_rfl
        · have := hafter w hw
          exact .inl (by omega)
    by_cases habove : v.start ≥ upper
    · rw [if_pos habove]
      exact finds_last hlower haligned (fun w hw ↦ (hfrom w hw).imp_left habove.le.trans) hleast
    rw [if_neg habove]
    by_cases hgap : candidate < v.start ∧ length ≤ v.start - candidate
    · rw [if_pos hgap]
      refine .inl ⟨rfl, ⟨hlower, haligned, ?_, fun w hw ↦ ?_⟩, hleast⟩
      · dsimp only
        omega
      · refine (hfrom w hw).imp_left fun h ↦ ?_
        dsimp only
        omega
    rw [if_neg hgap]
    by_cases hmeets : candidate < v.stop
    · rw [if_pos hmeets]
      -- whatever fits does so behind `v`
      have hbehind : ∀ b, Fits (passed ++ v :: rest) lower upper length alignment b →
          v.stop ≤ b := by
        intro b hb
        have hle := hleast b hb
        rcases hb.free v (by simp) with h | h
        · omega
        · exact h
      split
      · next hnone =>
        refine .inr ⟨rfl, fun b hb ↦ ?_⟩
        have hstop := hbehind b hb
        have hup := alignUp_none hnone hstop (by omega) hb.aligned
        have := hb.upper
        omega
      · next c hsome =>
        obtain ⟨hle, halign, hmin⟩ := alignUp_spec hpos hsome
        exact hnext (by omega) halign hle (by omega) fun b hb ↦
          hmin b (hbehind b hb) hb.aligned
    · rw [if_neg hmeets]
      exact hnext hlower haligned (by omega) le_rfl hleast

end Loop

/-- The arguments that `minimm_vma_snapshot_find_gap` accepts. -/
structure GapArgs (lower upper length alignment : ℕ) : Prop where
  bounds : lower < upper
  limit : upper ≤ userAddressLimit
  positive : 0 < length
  pages : length % pageSize = 0
  page : pageSize ≤ alignment
  power : alignment.isPowerOfTwo

theorem findGapAligned_finds {s : VmaSnapshot} (h : Ordered s.ranges)
    {lower upper length alignment : ℕ} (hargs : GapArgs lower upper length alignment) :
    Finds (s.findGapAligned lower upper length alignment)
      (Fits s.ranges lower upper length alignment) := by
  have hpos : 0 < alignment := (show 0 < pageSize by decide).trans_le hargs.page
  have hmask := (Nat.and_sub_one_eq_zero_iff_isPowerOfTwo hpos.ne').2 hargs.power
  have hbounds := hargs.bounds
  have hlimit := hargs.limit
  have hlength := hargs.positive
  have hpages := hargs.pages
  have hpage := hargs.page
  rw [findGapAligned, if_neg (by omega)]
  split
  · next hnone =>
    refine .inr ⟨rfl, fun b hb ↦ ?_⟩
    have hupper := hb.upper
    -- zero is aligned, so the lower bound is above it
    have hzero : 0 < lower := by
      by_contra hle
      have hlower : lower = 0 := by omega
      rw [hlower, alignUp, if_neg (Nat.not_lt_zero _)] at hnone
      cases hnone
    have hlow := hb.lower
    have hup := alignUp_none hnone hlow (by omega) hb.aligned
    omega
  · next candidate hsome =>
    obtain ⟨hle, haligned, hmin⟩ := alignUp_spec hpos hsome
    exact findGapFrom_finds [] h hlimit hlength hpos hle haligned (by simp) fun b hb ↦
      hmin b hb.lower hb.aligned

/-- The search finds the least aligned address between the bounds whose range is free, and fails
with `noSpace` exactly when there is none. -/
theorem reachable_firstFit {s : VmaSnapshot} (h : s.Reachable) (lower upper length alignment : ℕ) :
    (¬GapArgs lower upper length alignment →
      s.findGapAligned lower upper length alignment = (.invalidArgument, addressAuto)) ∧
    (GapArgs lower upper length alignment →
      (∀ a, s.findGapAligned lower upper length alignment = (.ok, a) ↔
        Fits s.ranges lower upper length alignment a ∧
          ∀ b, Fits s.ranges lower upper length alignment b → a ≤ b) ∧
      (s.findGapAligned lower upper length alignment = (.noSpace, addressAuto) ↔
        ¬∃ a, Fits s.ranges lower upper length alignment a)) := by
  refine ⟨fun hargs ↦ ?_, fun hargs ↦ ?_⟩
  · rw [findGapAligned, if_pos]
    by_contra hvalid
    simp only [not_or, not_not] at hvalid
    obtain ⟨hbounds, hlimit, hlength, hpages, hpage, hmask⟩ := hvalid
    have hpos : alignment ≠ 0 := by
      have : 0 < pageSize := by decide
      omega
    exact hargs ⟨by omega, by omega, by omega, hpages, by omega,
      (Nat.and_sub_one_eq_zero_iff_isPowerOfTwo hpos).1 hmask⟩
  · have hfinds := findGapAligned_finds h.good.ordered hargs
    generalize s.findGapAligned lower upper length alignment = r at hfinds ⊢
    obtain ⟨status, found⟩ := r
    rcases hfinds with ⟨hok, hfits, hleast⟩ | ⟨heq, hnone⟩
    · cases hok
      refine ⟨fun a ↦ ⟨fun heq ↦ ?_, fun ⟨ha, hmin⟩ ↦ ?_⟩, ⟨fun heq ↦ ?_, fun hnone ↦ ?_⟩⟩
      · cases heq
        exact ⟨hfits, hleast⟩
      · exact congrArg (Prod.mk Status.ok) (le_antisymm (hleast a ha) (hmin found hfits))
      · cases heq
      · exact absurd ⟨found, hfits⟩ hnone
    · cases heq
      refine ⟨fun a ↦ ⟨fun heq ↦ ?_, fun ⟨ha, _⟩ ↦ absurd ha (hnone a)⟩,
        ⟨fun _ ⟨a, ha⟩ ↦ hnone a ha, fun _ ↦ rfl⟩⟩
      cases heq

theorem reachable_firstFit_oneRange :
    oneRange.findGapAligned 0x100000 0x200000 0x2000 0x4000 = (.ok, 0x104000) := by
  have hargs : GapArgs 0x100000 0x200000 0x2000 0x4000 :=
    ⟨by decide, by decide, by decide, by decide, by decide, ⟨14, by decide⟩⟩
  refine ((reachable_firstFit oneRange_reachable _ _ _ _).2 hargs).1 _ |>.2 ⟨?_, fun b hb ↦ ?_⟩
  · exact ⟨by decide, by decide, by decide, by decide⟩
  · have hlower := hb.lower
    have haligned := hb.aligned
    have hfree := hb.free onePage (by decide)
    simp only [onePage, anonymous] at hfree
    omega

end VmaSnapshot

end MiniMM
