import MiniMM.Note

/-!
# Sealing a range of a merged layout

`mseal_merge.c`: the loop that seals the areas of a range one by one, and
merges a freshly sealed area with its successor while it walks over them.  The
array of the areas is a list; the loop reads it by index, as the source does.
-/

namespace MiniMM

namespace MsealMerge

/-- `minimm_mseal_merge_vma_t`. -/
structure Vma where
  start : ℕ
  stop : ℕ
  protection : Prot
  sealed : Bool
  deriving DecidableEq, Repr

/-- `minimm_mseal_merge_layout_t`: the first `count` of its `vmas`. -/
abbrev Layout := List Vma

/-- `minimm_mseal_merge_result_t`. -/
structure Result where
  totalPages : ℕ := 0
  sealedPages : ℕ := 0
  rangeValid : Bool := false
  updateStart : ℕ := 0
  currentStart : ℕ := 0
  deriving DecidableEq, Repr

/-- `MINIMM_MSEAL_MERGE_TOTAL_PAGES`. -/
def totalPages : ℕ := 3

/-- `minimm_mseal_merge_vmas_match`. -/
def vmasMatch (left right : Vma) : Bool :=
  left.stop = right.start ∧ left.protection = right.protection ∧ left.sealed = right.sealed

/-- `minimm_mseal_merge_modify_flags`, with no layout when it returns false. -/
def modifyFlags (layout : Layout) (index updateStart updateEnd : ℕ) : Option Layout :=
  match layout[index]? with
  | none => none
  | some vma =>
    if updateStart < vma.start ∨ updateStart ≥ updateEnd ∨ updateEnd > vma.stop then none
    else
      let vma := { vma with sealed := true }
      match layout[index + 1]? with
      | none => some (layout.set index vma)
      | some next =>
        if vmasMatch vma next then
          -- The entries after the swallowed one move down by one place.
          some ((layout.set index { vma with stop := next.stop }).eraseIdx (index + 1))
        else some (layout.set index vma)

/-- The pages of an area, as the `uint64_t` division counts them. -/
def Vma.pages (v : Vma) : ℕ := (v.stop - v.start) / pageSize

/-- `minimm_mseal_merge_count_sealed_pages`, in a `uint32_t`. -/
def countSealedPages (layout : Layout) : ℕ :=
  layout.foldl (fun pages v ↦
    if v.sealed then (pages + v.pages % 2 ^ 32) % 2 ^ 32 else pages) 0

/-- The loop of `minimm_mseal_merge_apply_range` from `index` on.  The index
grows in every round and the layout never does, so as many rounds as the layout
has areas are enough. -/
def applyLoop (stop : ℕ) : ℕ → ℕ → Layout → ℕ → Result → Layout × Result
  | 0, _, layout, _, result => (layout, result)
  | rounds + 1, index, layout, currStart, result =>
    match layout[index]? with
    | none => (layout, result)
    | some vma =>
      if vma.start < stop then
        let currEnd := min vma.stop stop
        let result := { result with updateStart := currStart, currentStart := vma.start }
        match if vma.sealed then some layout else modifyFlags layout index currStart currEnd with
        | none => (layout, { result with rangeValid := false })
        | some layout => applyLoop stop rounds (index + 1) layout currEnd result
      else (layout, result)

/-- `minimm_mseal_merge_apply_range`. -/
def applyRange (layout : Layout) (start stop : ℕ) : Layout × Result :=
  let (layout, result) := applyLoop stop layout.length 0 layout start
    { totalPages := totalPages, rangeValid := true }
  (layout, { result with sealedPages := countSealedPages layout })

/-- The areas `minimm_mseal_merge_apply` starts from. -/
def initialLayout : Layout :=
  [⟨0, pageSize, { read := true, write := true }, false⟩,
    ⟨pageSize, pageSize * 2, { read := true, write := true }, true⟩,
    ⟨pageSize * 2, pageSize * 3, { read := true }, false⟩]

/-- `minimm_mseal_merge_apply`. -/
def apply (n : NoteId) : Code (Status × Result) := do
  let size ← Note.loadSize n
  if size ≠ pageSize * totalPages then pure (.invalidArgument, {})
  else do
    let i ← Note.info n
    if (i.rights.read && i.rights.write && i.rights.share) = false then pure (.permission, {})
    else pure (.ok, (applyRange initialLayout 0 (pageSize * totalPages)).2)

/-! ## Pages of a layout -/

/-- The areas are page-aligned, nonempty and follow each other without a gap. -/
structure Tiled (layout : Layout) : Prop where
  aligned : ∀ v ∈ layout, pageSize ∣ v.start ∧ pageSize ∣ v.stop
  nonempty : ∀ v ∈ layout, v.start < v.stop
  adjacent : layout.IsChain fun v w ↦ v.stop = w.start

/-- Whether the area holds a page. -/
def Vma.has (v : Vma) (page : ℕ) : Bool := v.start ≤ page * pageSize ∧ page * pageSize < v.stop

/-- Protection and seal of a page, nothing for a page that is not mapped. -/
def pageState (layout : Layout) (page : ℕ) : Option (Prot × Bool) :=
  (layout.find? (·.has page)).map fun v ↦ (v.protection, v.sealed)

/-- The pages that are sealed. -/
def sealedSet (layout : Layout) : Set ℕ := {page | ∃ p, pageState layout page = some (p, true)}

/-- What sealing the range is to do: it succeeds, the pages of the range are
sealed, nothing else about any page changes, and the sealed pages are counted. -/
structure SealsRange (layout : Layout) (start stop : ℕ) : Prop where
  valid : (applyRange layout start stop).2.rangeValid = true
  pages : ∀ page, pageState (applyRange layout start stop).1 page =
    (pageState layout page).map fun s ↦
      (s.1, s.2 || decide (start ≤ page * pageSize ∧ page * pageSize < stop))
  counted : (applyRange layout start stop).2.sealedPages =
    (sealedSet (applyRange layout start stop).1).ncard

/-- Somewhere an unsealed area is followed by a sealed one of its protection,
and that by an unsealed one which starts inside the range. -/
def stumbles (stop : ℕ) : Layout → Bool
  | v :: w :: u :: rest =>
    (!v.sealed && w.sealed && v.protection == w.protection && !u.sealed && u.start < stop) ||
      stumbles stop (w :: u :: rest)
  | _ => false

/-- The number of pages that are sealed already or lie below `stop`. -/
def pagesSealed (stop : ℕ) (layout : Layout) : ℕ :=
  (layout.map fun v ↦ if v.sealed || v.start < stop then v.pages else 0).sum

namespace Tiled

variable {v w : Vma} {rest layout : Layout} {stop page : ℕ}

theorem tail (h : Tiled (v :: rest)) : Tiled rest :=
  ⟨fun u hu ↦ h.aligned u (List.mem_cons_of_mem _ hu),
    fun u hu ↦ h.nonempty u (List.mem_cons_of_mem _ hu), h.adjacent.tail⟩

theorem head (h : Tiled (v :: rest)) : pageSize ∣ v.start ∧ pageSize ∣ v.stop ∧ v.start < v.stop :=
  ⟨(h.aligned v (by simp)).1, (h.aligned v (by simp)).2, h.nonempty v (by simp)⟩

theorem next (h : Tiled (v :: w :: rest)) : v.stop = w.start :=
  (List.isChain_cons_cons.mp h.adjacent).1

theorem next_head (h : Tiled (v :: rest)) : ∀ w ∈ rest.head?, v.stop = w.start :=
  (List.isChain_cons.mp h.adjacent).1

theorem cons (hv : pageSize ∣ v.start ∧ pageSize ∣ v.stop ∧ v.start < v.stop)
    (hnext : ∀ w ∈ rest.head?, v.stop = w.start) (h : Tiled rest) : Tiled (v :: rest) := by
  constructor
  · intro u hu
    rcases List.mem_cons.mp hu with rfl | hu
    · exact ⟨hv.1, hv.2.1⟩
    · exact h.aligned u hu
  · intro u hu
    rcases List.mem_cons.mp hu with rfl | hu
    · exact hv.2.2
    · exact h.nonempty u hu
  · exact List.isChain_cons.mpr ⟨hnext, h.adjacent⟩

theorem stop_le (h : Tiled (v :: rest)) : ∀ w ∈ rest, v.stop ≤ w.start := by
  induction rest generalizing v with
  | nil => simp
  | cons w rest ih =>
    intro u hu
    have hvw := h.next
    rcases List.mem_cons.mp hu with rfl | hu
    · exact hvw.le
    · have hwu := ih h.tail u hu
      have hw := h.tail.head.2.2
      omega

theorem start_le (h : Tiled (v :: rest)) : ∀ w ∈ v :: rest, v.start ≤ w.start := by
  intro w hw
  rcases List.mem_cons.mp hw with rfl | hw
  · exact le_rfl
  · exact (h.head.2.2.le).trans (h.stop_le w hw)

end Tiled

/-! ## The loop over the areas not visited yet -/

/-- What the loop makes of the areas from its index on when no area is out of
step with the cursor. -/
def sealRange (stop : ℕ) : Layout → Layout
  | [] => []
  | [v] => if v.start < stop then [{ v with sealed := true }] else [v]
  | v :: w :: rest =>
    if v.start < stop then
      if v.sealed = false ∧ w.sealed = true ∧ v.protection = w.protection then
        { v with sealed := true, stop := w.stop } :: sealRange stop rest
      else { v with sealed := true } :: sealRange stop (w :: rest)
    else v :: w :: rest

/-- The cursor lags behind an unsealed area of the range. -/
def lags (stop currStart : ℕ) : Layout → Bool
  | [] => false
  | u :: _ => currStart < u.start && !u.sealed && u.start < stop

section Loop

variable {v w : Vma} {rest done layout : Layout} {start stop currStart page rounds : ℕ}
  {result : Result}

theorem stumbles_of_le (h : Tiled (v :: rest)) (hstop : stop ≤ v.start) :
    stumbles stop (v :: rest) = false := by
  induction rest generalizing v with
  | nil => rfl
  | cons w rest ih =>
    have hw : stop ≤ w.start := hstop.trans (h.start_le w (by simp))
    cases rest with
    | nil => rfl
    | cons u rest =>
      have hu : stop ≤ u.start := hw.trans (h.tail.start_le u (by simp))
      simp [stumbles, ih h.tail hw, hu]

theorem stumbles_cons_of_sealed (hv : v.sealed = true) :
    stumbles stop (v :: rest) = stumbles stop rest := by
  match rest with
  | [] => rfl
  | [w] => rfl
  | w :: u :: rest => simp [stumbles, hv]

theorem stumbles_cons_of_ne
    (hw : ∀ w ∈ rest.head?, ¬(w.sealed = true ∧ v.protection = w.protection)) :
    stumbles stop (v :: rest) = stumbles stop rest := by
  match rest, hw with
  | [], _ => rfl
  | [w], _ => rfl
  | w :: u :: rest, hw =>
    have := hw w rfl
    simp only [stumbles]
    cases hs : w.sealed <;> simp_all

theorem stumbles_of_merge (hv : v.sealed = false) (hw : w.sealed = true)
    (hp : v.protection = w.protection) (hrest : ∀ u ∈ rest.head?, currStart < u.start) :
    stumbles stop (v :: w :: rest) = (lags stop currStart rest || stumbles stop rest) := by
  match rest, hrest with
  | [], _ => simp [stumbles, lags]
  | u :: rest, hrest =>
    have hu : currStart < u.start := hrest u rfl
    rw [stumbles, stumbles_cons_of_sealed hw]
    simp [lags, hv, hw, hp, hu]

theorem getElem?_done : (done ++ v :: rest)[done.length]? = some v := by
  simp

theorem modifyFlags_behind (h : currStart < v.start) (updateEnd : ℕ) :
    modifyFlags (done ++ v :: rest) done.length currStart updateEnd = none := by
  simp only [modifyFlags, getElem?_done]
  rw [if_pos (Or.inl h)]

theorem modifyFlags_apart (hv : v.start < v.stop)
    (hw : ∀ w ∈ rest.head?, ¬(w.sealed = true ∧ v.protection = w.protection)) :
    modifyFlags (done ++ v :: rest) done.length v.start v.stop =
      some ((done ++ [{ v with sealed := true }]) ++ rest) := by
  simp only [modifyFlags, getElem?_done]
  rw [if_neg (by omega)]
  cases rest with
  | nil => simp
  | cons w rest =>
    have hw := hw w rfl
    have hmatch : vmasMatch { v with sealed := true } w = false := by
      simp only [vmasMatch]
      grind
    simp [hmatch]

theorem modifyFlags_merge (hv : v.start < v.stop) (hnext : v.stop = w.start)
    (hw : w.sealed = true) (hp : v.protection = w.protection) :
    modifyFlags (done ++ v :: w :: rest) done.length v.start v.stop =
      some ((done ++ [{ v with sealed := true, stop := w.stop }]) ++ rest) := by
  simp only [modifyFlags, getElem?_done]
  rw [if_neg (by omega)]
  have hmatch : vmasMatch { v with sealed := true } w = true := by
    simp [vmasMatch, hnext, hw, hp]
  have hget : (done ++ v :: w :: rest)[done.length + 1]? = some w := by
    rw [List.getElem?_append_right (by omega)]
    simp
  simp only [hget, hmatch, if_true]
  rw [List.set_append_right _ _ le_rfl, List.eraseIdx_append_of_length_le (by omega)]
  simp

/-- What the loop comes to from the areas `rest` on: it gives up when the cursor
lags or will lag, and has sealed the range otherwise. -/
def Comes (stop currStart : ℕ) (done rest : Layout) (valid : Bool) (out : Layout × Result) :
    Prop :=
  if lags stop currStart rest || stumbles stop rest then out.2.rangeValid = false
  else out.1 = done ++ sealRange stop rest ∧ out.2.rangeValid = valid

theorem sealRange_cons_of_sealed (hv : v.sealed = true) (hstop : v.start < stop) :
    sealRange stop (v :: rest) = v :: sealRange stop rest := by
  cases rest with
  | nil =>
    simp only [sealRange, if_pos hstop]
    rw [← hv]
  | cons w rest =>
    rw [sealRange, if_pos hstop, if_neg (by simp [hv]), ← hv]

theorem sealRange_cons_of_ne (hstop : v.start < stop)
    (hw : ∀ w ∈ rest.head?, ¬(w.sealed = true ∧ v.protection = w.protection)) :
    sealRange stop (v :: rest) = { v with sealed := true } :: sealRange stop rest := by
  cases rest with
  | nil => simp [sealRange, hstop]
  | cons w rest =>
    have hw := hw w rfl
    rw [sealRange, if_pos hstop, if_neg (fun h ↦ hw h.2)]

theorem sealRange_of_le (hstop : stop ≤ v.start) : sealRange stop (v :: rest) = v :: rest := by
  cases rest with
  | nil => simp [sealRange, hstop]
  | cons w rest => simp [sealRange, hstop]

/-- The cursor at the end of the area just visited is in step with the next. -/
theorem not_lags_next (h : Tiled (v :: rest)) : lags stop v.stop rest = false := by
  cases rest with
  | nil => rfl
  | cons w rest => simp [lags, h.next]

theorem not_lags_of_sealed (hv : v.sealed = true) : lags stop currStart (v :: rest) = false := by
  simp [lags, hv]

theorem not_lags_self : lags stop v.start (v :: rest) = false := by
  simp [lags]

theorem applyLoop_comes (done : Layout) (result : Result) (hrounds : rest.length ≤ rounds)
    (htiled : Tiled rest) (hstop : ∀ v ∈ rest, v.start < stop → v.stop ≤ stop)
    (hcursor : ∀ v ∈ rest.head?, currStart ≤ v.start) :
    Comes stop currStart done rest result.rangeValid
      (applyLoop stop rounds done.length (done ++ rest) currStart result) := by
  -- In each round the head of `rest` joins `done`, with its successor when the two are merged.
  induction rounds generalizing done rest currStart result with
  | zero =>
    obtain rfl : rest = [] := List.length_eq_zero_iff.mp (Nat.le_zero.mp hrounds)
    simp [Comes, applyLoop, lags, stumbles, sealRange]
  | succ rounds ih =>
    cases rest with
    | nil => simp [Comes, applyLoop, lags, stumbles, sealRange]
    | cons v rest =>
      have hv := htiled.head
      rw [applyLoop, getElem?_done]
      dsimp only
      by_cases hlt : v.start < stop
      swap
      · rw [if_neg hlt, Comes, stumbles_of_le htiled (by omega), sealRange_of_le (by omega)]
        simp [lags, hlt]
      rw [if_pos hlt, min_eq_left (hstop v (by simp) hlt)]
      -- One round on, with `u` in the place of `v` and possibly its successor.
      have hone : ∀ (u : Vma) (tail : Layout) (r : Result), tail.length ≤ rounds → Tiled tail →
          (∀ u ∈ tail, u ∈ rest) → Comes stop v.stop (done ++ [u]) tail r.rangeValid
            (applyLoop stop rounds (done.length + 1) ((done ++ [u]) ++ tail) v.stop r) := by
        intro u tail r hlen htail hsub
        have hlength : done.length + 1 = (done ++ [u]).length := by simp
        rw [hlength]
        apply ih _ _ hlen htail (fun u hu ↦ hstop u (List.mem_cons_of_mem _ (hsub u hu)))
        exact fun u hu ↦ htiled.stop_le u (hsub u (List.mem_of_mem_head? hu))
      have hlen : rest.length ≤ rounds := Nat.succ_le_succ_iff.mp hrounds
      by_cases hs : v.sealed = true
      · have := hone v rest { result with updateStart := currStart, currentStart := v.start }
          hlen htiled.tail fun _ hu ↦ hu
        rw [if_pos hs]
        simp only [Comes, not_lags_next htiled, stumbles_cons_of_sealed hs,
          sealRange_cons_of_sealed hs hlt, not_lags_of_sealed hs] at this ⊢
        simpa using this
      rw [Bool.not_eq_true] at hs
      rw [if_neg (by simp [hs])]
      by_cases hbehind : currStart < v.start
      · rw [modifyFlags_behind hbehind]
        simp [Comes, lags, hbehind, hs, hlt]
      obtain rfl : currStart = v.start := le_antisymm (hcursor v rfl) (by omega)
      by_cases hmerge : ∃ w ∈ rest.head?, w.sealed = true ∧ v.protection = w.protection
      · obtain ⟨w, hw, hws, hp⟩ := hmerge
        obtain ⟨rest, rfl⟩ : ∃ tail, rest = w :: tail := by
          cases rest with
          | nil => cases hw
          | cons u tail =>
            cases hw
            exact ⟨tail, rfl⟩
        rw [modifyFlags_merge hv.2.2 htiled.next hws hp]
        have hlag : ∀ u ∈ rest.head?, v.stop < u.start := by
          intro u hu
          have := htiled.tail.stop_le u (List.mem_of_mem_head? hu)
          have := htiled.next
          have := htiled.tail.head.2.2
          omega
        have := hone { v with sealed := true, stop := w.stop } rest
          { result with updateStart := v.start, currentStart := v.start }
          (Nat.le_of_succ_le hlen) htiled.tail.tail fun _ hu ↦ List.mem_cons_of_mem _ hu
        simp only [Comes, stumbles_of_merge hs hws hp hlag, not_lags_self] at this ⊢
        simpa [sealRange, hlt, hs, hws, hp] using this
      · have hne : ∀ w ∈ rest.head?, ¬(w.sealed = true ∧ v.protection = w.protection) :=
          fun w hw h ↦ hmerge ⟨w, hw, h⟩
        rw [modifyFlags_apart hv.2.2 hne]
        have := hone { v with sealed := true } rest
          { result with updateStart := v.start, currentStart := v.start }
          hlen htiled.tail fun _ hu ↦ hu
        simp only [Comes, not_lags_next htiled, stumbles_cons_of_ne hne,
          sealRange_cons_of_ne hlt hne, not_lags_self] at this ⊢
        simpa using this

end Loop

/-! ## The pages of the sealed layout -/

section Pages

variable {v w : Vma} {rest layout : Layout} {start stop page : ℕ}

theorem pageState_cons : pageState (v :: rest) page =
    if v.has page then some (v.protection, v.sealed) else pageState rest page := by
  cases h : v.has page <;> simp [pageState, h]

theorem exists_of_pageState {s : Prot × Bool} (h : pageState layout page = some s) :
    ∃ v ∈ layout, v.has page = true := by
  obtain ⟨v, hv, -⟩ := Option.map_eq_some_iff.mp h
  have hpage := List.find?_some hv
  exact ⟨v, List.mem_of_find?_eq_some hv, hpage⟩

theorem le_of_pageState {s : Prot × Bool} (htiled : Tiled (v :: rest))
    (h : pageState (v :: rest) page = some s) : v.start ≤ page * pageSize := by
  obtain ⟨w, hw, hpage⟩ := exists_of_pageState h
  have := htiled.start_le w hw
  simp only [Vma.has, decide_eq_true_eq] at hpage
  omega

theorem has_sealed : ({ v with sealed := true } : Vma).has page = v.has page := rfl

theorem has_merge (hv : v.start < v.stop) (hw : w.start < w.stop) (hnext : v.stop = w.start) :
    ({ v with sealed := true, stop := w.stop } : Vma).has page = (v.has page || w.has page) := by
  simp only [Vma.has, Bool.decide_and]
  grind

theorem pageState_sealRange (htiled : Tiled layout)
    (hstop : ∀ v ∈ layout, v.start < stop → v.stop ≤ stop) :
    pageState (sealRange stop layout) page =
      (pageState layout page).map fun s ↦ (s.1, s.2 || decide (page * pageSize < stop)) := by
  -- A page of an area below `stop` lies below `stop`.
  have hbelow : ∀ v ∈ layout, v.start < stop → v.has page = true → page * pageSize < stop := by
    intro v hv hlt hpage
    have := hstop v hv hlt
    simp only [Vma.has, decide_eq_true_eq] at hpage
    omega
  fun_induction sealRange stop layout with
  | case1 => rfl
  | case2 v hlt =>
    have hv := hbelow v (by simp) hlt
    rw [pageState_cons, pageState_cons, has_sealed]
    cases hpv : v.has page with
    | true => simp [hv hpv]
    | false => rfl
  | case3 v hlt =>
    cases h : pageState [v] page with
    | none => rfl
    | some s =>
      have := le_of_pageState htiled h
      simp [show ¬page * pageSize < stop by omega]
  | case4 v w rest hlt hmerge ih =>
    have hrest := ih htiled.tail.tail (fun u hu ↦ hstop u (by simp [hu]))
      (fun u hu ↦ hbelow u (by simp [hu]))
    have hv := hbelow v (by simp) hlt
    rw [pageState_cons, pageState_cons, pageState_cons, hrest,
      has_merge htiled.head.2.2 htiled.tail.head.2.2 htiled.next]
    cases hpv : v.has page with
    | true => simp [hv hpv]
    | false =>
      cases hpw : w.has page with
      | true => simp [hmerge]
      | false => simp
  | case5 v w rest hlt hmerge ih =>
    have hrest := ih htiled.tail (fun u hu ↦ hstop u (List.mem_cons_of_mem _ hu))
      (fun u hu ↦ hbelow u (List.mem_cons_of_mem _ hu))
    have hv := hbelow v (by simp) hlt
    rw [pageState_cons, hrest, has_sealed, pageState_cons (v := v)]
    cases hpv : v.has page with
    | true => simp [hv hpv]
    | false => simp
  | case6 v w rest hlt =>
    cases h : pageState (v :: w :: rest) page with
    | none => rfl
    | some s =>
      have := le_of_pageState htiled h
      simp [show ¬page * pageSize < stop by omega]

theorem head_sealRange {x : ℕ} (hx : ∀ w ∈ layout.head?, x = w.start) :
    ∀ w ∈ (sealRange stop layout).head?, x = w.start := by
  match layout with
  | [] => exact hx
  | [v] =>
    have hv : x = v.start := hx v rfl
    simp only [sealRange]
    split_ifs <;> simpa using hv
  | v :: w :: rest =>
    have hv : x = v.start := hx v rfl
    simp only [sealRange]
    split_ifs <;> simpa using hv

theorem tiled_sealRange (htiled : Tiled layout) : Tiled (sealRange stop layout) := by
  fun_induction sealRange stop layout with
  | case1 => exact htiled
  | case2 v hlt => exact Tiled.cons htiled.head (by simp) htiled.tail
  | case3 v hlt => exact htiled
  | case4 v w rest hlt hmerge ih =>
    have hv := htiled.head
    have hw := htiled.tail.head
    have hnext := htiled.next
    apply Tiled.cons
    · exact ⟨hv.1, hw.2.1, by dsimp only; omega⟩
    · exact head_sealRange htiled.tail.next_head
    · exact ih htiled.tail.tail
  | case5 v w rest hlt hmerge ih =>
    exact Tiled.cons htiled.head (head_sealRange htiled.next_head) (ih htiled.tail)
  | case6 v w rest hlt => exact htiled

/-! ## The number of sealed pages -/

@[simp] theorem pagesSealed_nil : pagesSealed stop [] = 0 := rfl

@[simp] theorem pagesSealed_cons : pagesSealed stop (v :: rest) =
    (if v.sealed || v.start < stop then v.pages else 0) + pagesSealed stop rest := rfl

theorem pages_merge (htiled : Tiled (v :: w :: rest)) :
    ({ v with sealed := true, stop := w.stop } : Vma).pages = v.pages + w.pages := by
  have hv := htiled.head
  have hw := htiled.tail.head
  have hnext := htiled.next
  simp only [Vma.pages, pageSize] at hv hw ⊢
  omega

theorem pagesSealed_of_le (htiled : Tiled (v :: rest)) (hstop : stop ≤ v.start) :
    pagesSealed 0 (v :: rest) = pagesSealed stop (v :: rest) := by
  unfold pagesSealed
  congr 1
  apply List.map_congr_left
  intro w hw
  have := htiled.start_le w hw
  simp [show ¬w.start < stop by omega]

theorem pagesSealed_sealRange (htiled : Tiled layout) :
    pagesSealed 0 (sealRange stop layout) = pagesSealed stop layout := by
  fun_induction sealRange stop layout with
  | case1 => rfl
  | case2 v hlt => simp [hlt, Vma.pages]
  | case3 v hlt => exact pagesSealed_of_le htiled (by omega)
  | case4 v w rest hlt hmerge ih =>
    rw [pagesSealed_cons, pages_merge htiled, ih htiled.tail.tail, pagesSealed_cons,
      pagesSealed_cons]
    simp [hlt, hmerge]
    omega
  | case5 v w rest hlt hmerge ih =>
    rw [pagesSealed_cons, ih htiled.tail, pagesSealed_cons]
    simp [hlt, Vma.pages]
  | case6 v w rest hlt => exact pagesSealed_of_le htiled (by omega)

theorem countSealedPages_eq (layout : Layout) :
    countSealedPages layout = pagesSealed 0 layout % 2 ^ 32 := by
  have hfold : ∀ (l : Layout) (n : ℕ), n < 2 ^ 32 → l.foldl (fun pages v ↦
      if v.sealed then (pages + v.pages % 2 ^ 32) % 2 ^ 32 else pages) n =
      (n + pagesSealed 0 l) % 2 ^ 32 := by
    intro l
    induction l with
    | nil =>
      intro n hn
      exact (Nat.mod_eq_of_lt hn).symm
    | cons v rest ih =>
      intro n hn
      cases hs : v.sealed with
      | false => simpa [hs] using ih n hn
      | true =>
        have hstep := ih ((n + v.pages % 2 ^ 32) % 2 ^ 32) (Nat.mod_lt _ (by norm_num))
        simp only [List.foldl_cons, hs, if_true, pagesSealed_cons, Bool.true_or]
        rw [hstep]
        omega
  rw [countSealedPages, hfold layout 0 (by norm_num), Nat.zero_add]

theorem has_iff (h : pageSize ∣ v.start ∧ pageSize ∣ v.stop ∧ v.start < v.stop) :
    v.has page = true ↔ page ∈ Finset.Ico (v.start / pageSize) (v.stop / pageSize) := by
  rw [Vma.has, decide_eq_true_eq, Finset.mem_Ico]
  simp only [pageSize] at h ⊢
  omega

theorem exists_finset_sealed (htiled : Tiled layout) :
    ∃ pages : Finset ℕ, sealedSet layout = pages ∧ pages.card = pagesSealed 0 layout := by
  induction layout with
  | nil => exact ⟨∅, by simp [sealedSet, pageState], rfl⟩
  | cons v rest ih =>
    obtain ⟨pages, hset, hcard⟩ := ih htiled.tail
    have hpage : ∀ page, (∃ p, pageState rest page = some (p, true)) ↔ page ∈ pages :=
      fun page ↦ (Set.ext_iff.mp hset page)
    -- No page of `v` is mapped by a later area.
    have hapart : ∀ page ∈ pages, v.has page = false := by
      intro page hmem
      obtain ⟨p, hp⟩ := (hpage page).mpr hmem
      obtain ⟨w, hw, hwpage⟩ := exists_of_pageState hp
      have := htiled.stop_le w hw
      simp only [Vma.has, decide_eq_true_eq, decide_eq_false_iff_not] at hwpage ⊢
      omega
    cases hs : v.sealed with
    | false =>
      refine ⟨pages, ?_, by simp [hs, hcard]⟩
      ext page
      have := hapart page
      rw [Finset.mem_coe, ← hpage]
      simp only [sealedSet, Set.mem_ofPred_eq, pageState_cons]
      cases hv : v.has page with
      | false => simp
      | true =>
        have hnot : ¬∃ p, pageState rest page = some (p, true) :=
          fun h ↦ by simp [hapart page ((hpage page).mp h)] at hv
        simpa [hs] using hnot
    | true =>
      refine ⟨Finset.Ico (v.start / pageSize) (v.stop / pageSize) ∪ pages, ?_, ?_⟩
      · ext page
        rw [Finset.mem_coe, Finset.mem_union, ← has_iff htiled.head, ← hpage]
        simp only [sealedSet, Set.mem_ofPred_eq, pageState_cons]
        cases hv : v.has page <;> simp [hs]
      · rw [Finset.card_union_of_disjoint, hcard, Nat.card_Ico]
        · have := htiled.head
          simp only [pagesSealed_cons, hs, Vma.pages, pageSize] at this ⊢
          simp
          omega
        · rw [Finset.disjoint_left]
          intro page hmem hpages
          rw [← has_iff htiled.head, hapart page hpages] at hmem
          cases hmem

theorem ncard_sealedSet (htiled : Tiled layout) :
    (sealedSet layout).ncard = pagesSealed 0 layout := by
  obtain ⟨pages, hset, hcard⟩ := exists_finset_sealed htiled
  rw [hset, Set.ncard_coe_finset, hcard]

/-! ## When the range is sealed -/

theorem stop_le_of_lt (htiled : Tiled layout) (hstop : ∃ v ∈ layout, v.stop = stop) :
    ∀ v ∈ layout, v.start < stop → v.stop ≤ stop := by
  induction layout with
  | nil => simp
  | cons u rest ih =>
    intro v hv hlt
    obtain ⟨w, hw, hwstop⟩ := hstop
    rcases List.mem_cons.mp hv with rfl | hv'
    · rcases List.mem_cons.mp hw with rfl | hw'
      · exact hwstop.le
      · have := htiled.stop_le w hw'
        have := htiled.nonempty w hw
        omega
    · rcases List.mem_cons.mp hw with rfl | hw'
      · have := htiled.stop_le v hv'
        omega
      · exact ih htiled.tail ⟨w, hw', hwstop⟩ v hv' hlt

theorem applyRange_comes (htiled : Tiled layout) (hstart : ∀ v ∈ layout.head?, v.start = start)
    (hstop : ∃ v ∈ layout, v.stop = stop) :
    if stumbles stop layout then (applyRange layout start stop).2.rangeValid = false
    else (applyRange layout start stop).1 = sealRange stop layout ∧
      (applyRange layout start stop).2.rangeValid = true := by
  have hlags : lags stop start layout = false := by
    cases layout with
    | nil => rfl
    | cons v rest => simp [lags, hstart v rfl]
  have h : Comes stop start [] layout true (applyLoop stop layout.length 0 layout start
      { totalPages := totalPages, rangeValid := true }) :=
    applyLoop_comes [] _ le_rfl htiled (stop_le_of_lt htiled hstop) (fun v hv ↦ (hstart v hv).ge)
  simpa [Comes, hlags, applyRange] using h

/-- The range is sealed as asked exactly when no merge leaves the cursor behind
an unsealed area and the sealed pages fit a `uint32_t`. -/
theorem sealsRange_iff (htiled : Tiled layout) (hstart : ∀ v ∈ layout.head?, v.start = start)
    (hstop : ∃ v ∈ layout, v.stop = stop) :
    SealsRange layout start stop ↔
      stumbles stop layout = false ∧ pagesSealed stop layout < 2 ^ 32 := by
  have hcomes := applyRange_comes htiled hstart hstop
  have hcount : (applyRange layout start stop).2.sealedPages =
    countSealedPages (applyRange layout start stop).1 := rfl
  cases hs : stumbles stop layout with
  | true =>
    rw [hs, if_pos rfl] at hcomes
    have : ¬SealsRange layout start stop := fun h ↦ by simp [h.valid] at hcomes
    simp [this]
  | false =>
    rw [hs, if_neg (by simp)] at hcomes
    rw [countSealedPages_eq, hcomes.1, pagesSealed_sealRange htiled] at hcount
    have hcard : (sealedSet (applyRange layout start stop).1).ncard = pagesSealed
      stop layout := by
      rw [hcomes.1, ncard_sealedSet (tiled_sealRange htiled), pagesSealed_sealRange htiled]
    constructor
    · intro h
      have := h.counted
      rw [hcard, hcount] at this
      exact ⟨rfl, this ▸ Nat.mod_lt _ (by norm_num)⟩
    · rintro ⟨-, hlt⟩
      refine ⟨hcomes.2, fun page ↦ ?_, ?_⟩
      · rw [hcomes.1, pageState_sealRange htiled (stop_le_of_lt htiled hstop)]
        cases h : pageState layout page with
        | none => rfl
        | some s =>
          -- Every mapped page lies above the start of the range.
          have hle : start ≤ page * pageSize := by
            cases layout with
            | nil => cases h
            | cons v rest =>
              rw [← hstart v rfl]
              exact le_of_pageState htiled h
          simp [hle]
      · rw [hcard, hcount, Nat.mod_eq_of_lt hlt]

theorem sealsRange_two : SealsRange [⟨0, pageSize, { read := true, write := true }, false⟩,
    ⟨pageSize, pageSize * 2, { read := true }, true⟩] 0 (pageSize * 2) := by
  refine (sealsRange_iff ⟨by decide, by decide, by simp⟩ (by simp) (by simp)).mpr ?_
  decide

/-- The layout of `minimm_mseal_merge_apply` itself is not sealed. -/
theorem not_sealsRange_initialLayout : Tiled initialLayout ∧
    (applyRange initialLayout 0 (pageSize * totalPages)).2 =
      { totalPages := 3, sealedPages := 2, rangeValid := false, updateStart := 4096,
        currentStart := 8192 } ∧
    ¬SealsRange initialLayout 0 (pageSize * totalPages) := by
  refine ⟨⟨by decide, by decide, by simp [initialLayout]⟩, by decide, fun h ↦ ?_⟩
  exact absurd h.valid (by decide)

end Pages

end MsealMerge

end MiniMM
