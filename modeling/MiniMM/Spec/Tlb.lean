import MiniMM.Spec.Table

/-!
# Specifications of the TLB

The holder of the lock of a space knows what the TLB of the space holds.
-/

namespace MiniMM

open Handle

namespace Tlb

variable {μ : Mode} {i : SpaceId} {capacity : ℕ} {entries : ℕ → Option TlbEntry} {s s' : Sys}
  {w : World} {R : TlbEntry → Prop}

/-- The contents of the TLB of a space. -/
structure Holds (i : SpaceId) (capacity : ℕ) (entries : ℕ → Option TlbEntry) (s : Sys) :
    Prop where
  capacity_eq : (s.tlb i).capacity = capacity
  entries_eq : (s.tlb i).entries = entries

/-- Every valid entry satisfies `R`. -/
def All (R : TlbEntry → Prop) (i : SpaceId) (s : Sys) : Prop :=
  ∀ k e, (s.tlb i).entries k = some e → R e

theorem Holds.keeps {x : Multiset Handle} (h : Holds i capacity entries s) (hk : Keeps x s s')
    (hx : lock (.space i) ∈ x) : Holds i capacity entries s' :=
  ⟨by rw [hk.tlb i hx, h.capacity_eq], by rw [hk.tlb i hx, h.entries_eq]⟩

theorem All.keeps {x : Multiset Handle} (h : All R i s) (hk : Keeps x s s')
    (hx : lock (.space i) ∈ x) : All R i s' := by
  intro k e he
  rw [hk.tlb i hx] at he
  exact h k e he

theorem All.mono {R' : TlbEntry → Prop} (h : All R i s) (hR : ∀ e, R e → R' e) : All R' i s :=
  fun k e he ↦ hR e (h k e he)

theorem Holds.index {μ : Mode} (h : Holds i capacity entries w.sys) (hinv : Inv μ w) {k : ℕ}
    {e : TlbEntry} (he : entries k = some e) : k < capacity ∧ index capacity e.virtualPage = k := by
  have := hinv.tlbs.entry i k e (by rw [h.entries_eq, he])
  rwa [h.capacity_eq] at this

theorem Holds.room {μ : Mode} (h : Holds i capacity entries w.sys) (hinv : Inv μ w)
    (hl : lock (.space i) ∈ w.mine) : 0 < capacity := by
  have := hinv.tlbs.capacity i (Sys.space_mem_locks.1 (hinv.lock_exists hl))
  rw [h.capacity_eq] at this
  exact Nat.pos_of_ne_zero this

theorem of_update_none {k j : ℕ} {e : TlbEntry} (h : Function.update entries k none j = some e) :
    entries j = some e := by
  by_cases hj : j = k
  · subst hj
    rw [Function.update_self] at h
    cases h
  · rwa [Function.update_of_ne hj] at h

/-! ## Single steps -/

theorem stable {w : World} {s' : Sys} (_ : Inv μ w)
    (_ : 0 + {lock (.space i)} ≤ w.mine) (hk : Keeps (0 + {lock (.space i)}) w.sys s')
    (h : Holds i capacity entries w.sys) : Holds i capacity entries s' :=
  h.keeps hk (by simp)

theorem read_spec {α : Type} {o : TlbOp α} (hset : ∀ s : Sys, s.take (.tlb i o) = 0)
    (hgive : ∀ (s : Sys) r, s.give (.tlb i o) r = 0) (hneeds : ∀ w, needs μ w (.tlb i o))
    (hcap : ∀ t, (Sys.execTlb t o).2.capacity = t.capacity)
    (hent : ∀ t, (Sys.execTlb t o).2.entries = t.entries) :
    Triple μ 0 {lock (.space i)} (Holds i capacity entries) (Code.tlb i o)
      (fun _ ↦ {lock (.space i)})
      fun r s ↦ Holds i capacity entries s ∧
        ∃ t : Tlb, t.capacity = capacity ∧ t.entries = entries ∧ r = (Sys.execTlb t o).1 := by
  refine .step stable (fun _ _ _ ↦ ⟨?_, hneeds _⟩) fun {w w' b} _ _ h hn _ ↦ ⟨?_, ?_⟩
  · rw [hset, zero_add]
    rfl
  · rw [hset, hgive]
  · obtain ⟨woken, hexec⟩ := hn.exec
    obtain ⟨hb, hs⟩ := Prog.Outcome.ok.inj hexec
    refine ⟨?_, w.sys.tlb i, h.capacity_eq, h.entries_eq, hb.symm⟩
    rw [← hs]
    refine ⟨?_, ?_⟩
    · simp only [Function.update_self, hcap, h.capacity_eq]
    · simp only [Function.update_self, hent, h.entries_eq]

theorem capacity_spec :
    Triple μ 0 {lock (.space i)} (Holds i capacity entries) (Code.tlb i .capacity)
      (fun _ ↦ {lock (.space i)})
      fun r s ↦ Holds i capacity entries s ∧ r = capacity := by
  refine (read_spec (μ := μ) (i := i) (o := .capacity) (fun _ ↦ rfl) (fun _ _ ↦ rfl)
    (fun _ ↦ trivial) (fun _ ↦ rfl) fun _ ↦ rfl).post ?_
  rintro r s ⟨h, t, rfl, -, rfl⟩
  exact ⟨h, rfl⟩

theorem entry_spec (k : ℕ) :
    Triple μ 0 {lock (.space i)} (Holds i capacity entries) (Code.tlb i (.entry k))
      (fun _ ↦ {lock (.space i)})
      fun r s ↦ Holds i capacity entries s ∧ r = entries k := by
  refine (read_spec (μ := μ) (i := i) (o := .entry k) (fun _ ↦ rfl) (fun _ _ ↦ rfl)
    (fun _ ↦ trivial) (fun _ ↦ rfl) fun _ ↦ rfl).post ?_
  rintro r s ⟨h, t, -, rfl, rfl⟩
  exact ⟨h, rfl⟩

theorem count_spec (counter : TlbCounter) :
    Triple μ 0 {lock (.space i)} (Holds i capacity entries) (Code.tlb i (.count counter))
      (fun _ ↦ {lock (.space i)}) fun _ s ↦ Holds i capacity entries s :=
  (read_spec (μ := μ) (i := i) (o := .count counter) (fun _ ↦ rfl) (fun _ _ ↦ rfl) (fun _ ↦ trivial)
    (fun _ ↦ rfl) fun _ ↦ rfl).post fun _ _ h ↦ h.1

theorem set_spec {k : ℕ} {e : Option TlbEntry} (hk : k < capacity)
    (he : ∀ x, e = some x → index capacity x.virtualPage = k) :
    Triple μ 0 ({lock (.space i)} + tlbEntrySites e) (Holds i capacity entries)
      (Code.tlb i (.set k e)) (fun _ ↦ {lock (.space i)} + tlbEntrySites (entries k))
      fun _ s ↦ Holds i capacity (Function.update entries k e) s := by
  refine .step (fun _ _ hk h ↦ h.keeps hk (by simp)) (fun _ _ h ↦ ⟨?_, ?_⟩)
    fun {w w' b} _ _ h hn _ ↦ ⟨?_, ?_⟩
  · exact (add_comm _ _).le
  · refine ⟨by rwa [h.capacity_eq], fun x hx ↦ ?_⟩
    rw [h.capacity_eq]
    exact he x hx
  · simp only [Sys.take, Sys.give, h.entries_eq]
    ac_rfl
  · obtain ⟨woken, hexec⟩ := hn.exec
    obtain ⟨-, hs⟩ := Prog.Outcome.ok.inj hexec
    rw [← hs]
    refine ⟨?_, ?_⟩
    · simp only [Function.update_self, Sys.execTlb, h.capacity_eq]
    · simp only [Function.update_self, Sys.execTlb, h.entries_eq]

/-! ## The functions -/

theorem entryClear_spec {k : ℕ} {e : TlbEntry} (hk : k < capacity) (he : entries k = some e) :
    Triple μ 0 {lock (.space i)} (Holds i capacity entries) (entryClear i k e)
      (fun _ ↦ {lock (.space i)})
      fun _ s ↦ Holds i capacity (Function.update entries k none) s := by
  intro s x w hK hat h
  refine (set_spec (e := none) hk fun _ hx ↦ nomatch hx).next hat h
    fun _ w1 hat1 _ h1 ↦ ?_
  rw [he] at hat1
  refine release_spec.tail (F := {lock (.space i)}) hat1 ?_ zero_le trivial
    fun _ w2 hat2 hk2 _ ↦ ⟨hat2, h1.keeps hk2 (by simp)⟩
  rw [add_zero, add_comm]
  rfl

theorem invalidateIndex_spec (wanted : ℕ → Bool) (k : ℕ) :
    Triple μ 0 {lock (.space i)} (Holds i capacity entries) (invalidateIndex i wanted k)
      (fun _ ↦ {lock (.space i)})
      fun _ s ↦ ∃ entries', Holds i capacity entries' s ∧
        (∀ j e, entries' j = some e → entries j = some e) ∧
        ∀ e, entries' k = some e → wanted e.virtualPage = false := by
  intro s x w hK hat h
  refine (entry_spec k).next hat h ?_
  rintro e w1 hat1 - ⟨h1, he⟩
  subst he
  split
  · rename_i hnone
    exact ⟨hat1, entries, h1, fun _ _ he ↦ he, fun e he ↦ nomatch hnone.symm.trans he⟩
  · rename_i e he
    split_ifs with hw
    · refine (entryClear_spec (h1.index hat1.inv he).1 he).next hat1 h1
        fun _ w2 hat2 _ h2 ↦ ?_
      refine (count_spec _).tail (F := 0) hat2 rfl zero_le h2
        fun _ w3 hat3 _ h3 ↦ ⟨hat3, _, h3, fun _ _ ↦ of_update_none, fun e' he' ↦ ?_⟩
      rw [Function.update_self] at he'
      cases he'
    · refine ⟨hat1, entries, h1, fun _ _ he ↦ he, fun e' he' ↦ ?_⟩
      cases he.symm.trans he'
      simpa using hw

theorem invalidateFrom_spec (wanted : ℕ → Bool) (ks : List ℕ) :
    Triple μ 0 {lock (.space i)} (Holds i capacity entries) (invalidateFrom i wanted ks)
      (fun _ ↦ {lock (.space i)})
      fun _ s ↦ ∃ entries', Holds i capacity entries' s ∧
        (∀ j e, entries' j = some e → entries j = some e) ∧
        ∀ k ∈ ks, ∀ e, entries' k = some e → wanted e.virtualPage = false := by
  induction ks generalizing entries with
  | nil => exact .pure rfl fun _ h ↦ ⟨entries, h, fun _ _ he ↦ he, fun _ hk ↦ nomatch hk⟩
  | cons k ks ih =>
    intro s x w hK hat h
    refine (invalidateIndex_spec wanted k).next hat h ?_
    rintro _ w1 hat1 - ⟨entries1, h1, hsub1, hk1⟩
    refine ih.tail (F := 0) hat1 rfl zero_le h1 ?_
    rintro _ w2 hat2 - ⟨entries2, h2, hsub2, hk2⟩
    refine ⟨hat2, entries2, h2, fun j e he ↦ hsub1 j e (hsub2 j e he), fun j hj e he ↦ ?_⟩
    rcases List.mem_cons.1 hj with rfl | hj
    · exact hk1 e (hsub2 j e he)
    · exact hk2 j hj e he

theorem invalidateAll_spec (wanted : ℕ → Bool) :
    Triple μ 0 {lock (.space i)} (All R i)
      (do
        let capacity ← Code.tlb i .capacity
        invalidateFrom i wanted (List.range capacity))
      (fun _ ↦ {lock (.space i)})
      fun _ s ↦ All (fun e ↦ R e ∧ wanted e.virtualPage = false) i s := by
  intro s x w hK hat h
  refine capacity_spec.next hat ⟨rfl, rfl⟩ ?_
  rintro _ w1 hat1 - ⟨h1, rfl⟩
  refine (invalidateFrom_spec wanted _).tail (F := 0) hat1 rfl zero_le h1 ?_
  rintro _ w2 hat2 - ⟨entries2, h2, hsub, hwanted⟩
  refine ⟨hat2, fun k e he ↦ ?_⟩
  rw [h2.entries_eq] at he
  exact ⟨h k e (hsub k e he), hwanted k (List.mem_range.2 (h2.index hat2.inv he).1) e he⟩

theorem invalidatePage_spec (address : ℕ) :
    Triple μ 0 {lock (.space i)} (All R i) (invalidatePage i address)
      (fun _ ↦ {lock (.space i)})
      fun _ s ↦ All (fun e ↦ R e ∧
        (address < userAddressLimit → e.virtualPage ≠ address / pageSize)) i s := by
  intro s x w hK hat h
  rw [invalidatePage]
  split_ifs with ha
  · exact ⟨hat, fun k e he ↦ ⟨h k e he, fun hlt ↦ absurd ha (Nat.not_le.2 hlt)⟩⟩
  refine capacity_spec.next hat ⟨rfl, rfl⟩ ?_
  rintro _ w1 hat1 - ⟨h1, rfl⟩
  refine (invalidateIndex_spec _ _).tail (F := 0) hat1 rfl zero_le h1 ?_
  rintro _ w2 hat2 - ⟨entries2, h2, hsub, hwanted⟩
  refine ⟨hat2, fun k e he ↦ ?_⟩
  rw [h2.entries_eq] at he
  refine ⟨h k e (hsub k e he), fun _ hpage ↦ ?_⟩
  -- the entry of the page can only be at the index of the page
  have hk := (h2.index hat2.inv he).2
  rw [hpage] at hk
  subst hk
  simpa [hpage] using hwanted e he

theorem invalidateRange_spec (start stop : ℕ) :
    Triple μ 0 {lock (.space i)} (All R i) (invalidateRange i start stop)
      (fun _ ↦ {lock (.space i)})
      fun _ s ↦ All (fun e ↦ R e ∧ (start < stop → stop ≤ userAddressLimit →
        ¬ (start / pageSize ≤ e.virtualPage ∧
          e.virtualPage < (stop + pageSize - 1) / pageSize))) i s := by
  rw [invalidateRange]
  refine .ite (fun hempty ↦ ?_) fun _ ↦ ?_
  · refine .pure rfl fun s h ↦ h.mono fun e he ↦ ⟨he, fun h1 h2 ↦ ?_⟩
    omega
  · refine (invalidateAll_spec _).post fun _ s h ↦ ?_
    refine h.mono fun e he ↦ ⟨he.1, fun _ _ hin ↦ ?_⟩
    simp [hin.1, hin.2] at he

theorem flush_spec :
    Triple μ 0 {lock (.space i)} (All R i) (flush i) (fun _ ↦ {lock (.space i)})
      fun _ s ↦ All (fun _ ↦ False) i s :=
  (invalidateAll_spec _).post
    fun _ _ h ↦ h.mono fun _ he ↦ nomatch he.2

/-! ### Steps on a frame that the TLB holds -/

theorem isResident_spec {k : ℕ} {e : TlbEntry} (he : entries k = some e) :
    Spends μ {lock (.space i)} 0 (Holds i capacity entries)
      (Code.store (.isResident e.translation.frame)) := by
  refine .step (fun _ _ hk h ↦ h.keeps hk (by simp)) (fun _ hle h ↦ ⟨le_rfl, fun f hf ↦ ?_⟩)
    fun _ _ _ _ _ ↦ ⟨rfl, trivial⟩
  cases hf
  exact .inr ⟨i, k, e, Multiset.mem_of_le hle (by simp), by rw [h.entries_eq, he], rfl⟩

theorem retain_spec {k : ℕ} {e : TlbEntry} (he : entries k = some e) :
    Triple μ {lock (.space i)} 0 (Holds i capacity entries)
      (frameRetain e.translation.frame) (fun _ ↦ {ref e.translation.frame}) fun _ _ ↦ True := by
  refine .step (fun _ _ hk h ↦ h.keeps hk (by simp)) (fun _ hle h ↦ ⟨le_rfl, ?_⟩)
    fun _ _ _ _ _ ↦ ⟨rfl, trivial⟩
  exact .inr ⟨i, k, e, Multiset.mem_of_le hle (by simp), by rw [h.entries_eq, he], rfl⟩

theorem lookup_spec (address : ℕ) :
    Triple μ 0 {lock (.space i)} (All R i) (lookup i address)
      (fun r ↦ {lock (.space i)} + r.elim 0 fun pte ↦ {ref pte.frame})
      fun r s ↦ All R i s ∧ ∀ pte, r = some pte → R ⟨address / pageSize, pte⟩ := by
  intro s x w hK hat h
  -- without a hit nothing is returned
  have hmiss : ∀ {w : World} {cap : ℕ} {entries : ℕ → Option TlbEntry},
      At μ s x {lock (.space i)} w → Holds i cap entries w.sys → (∀ k e, entries k = some e → R e) →
      At μ s x ({lock (.space i)} + (none : Option Pte).elim 0 fun pte ↦ {ref pte.frame}) w ∧
        All R i w.sys ∧ ∀ pte, (none : Option Pte) = some pte → R ⟨address / pageSize, pte⟩ := by
    intro w cap entries hat h hR
    refine ⟨hat, fun k e he ↦ hR k e ?_, fun _ hpte ↦ by cases hpte⟩
    rwa [h.entries_eq] at he
  rw [lookup]
  split_ifs with ha
  · exact ⟨hat, h, fun _ hpte ↦ by cases hpte⟩
  refine capacity_spec.next hat ⟨rfl, rfl⟩ ?_
  rintro _ w1 hat1 - ⟨h1, rfl⟩
  refine (entry_spec _).next hat1 h1 ?_
  rintro _ w2 hat2 - ⟨h2, rfl⟩
  split
  · refine (count_spec _).next hat2 h2 fun _ w3 hat3 _ h3 ↦ ?_
    exact hmiss hat3 h3 h
  rename_i e he
  split_ifs with hpage
  · refine (count_spec _).next hat2 h2 fun _ w3 hat3 _ h3 ↦ ?_
    exact hmiss hat3 h3 h
  refine (isResident_spec he).seq (F := {lock (.space i)}) hat2 rfl le_self_add h2
    fun resident w3 hat3 hk3 _ ↦ ?_
  have h3 := h2.keeps hk3 (by simp)
  split_ifs with hres
  · refine (entryClear_spec (h3.index hat3.inv he).1 he).next hat3 h3
      fun _ w4 hat4 _ h4 ↦ ?_
    refine (count_spec _).next hat4 h4 fun _ w5 hat5 _ h5 ↦ ?_
    refine (count_spec _).next hat5 h5 fun _ w6 hat6 _ h6 ↦ ?_
    exact hmiss hat6 h6 fun k e' he' ↦ h k e' (of_update_none he')
  · refine (count_spec _).next hat3 h3 fun _ w4 hat4 _ h4 ↦ ?_
    refine (retain_spec he).seq (F := {lock (.space i)}) hat4 (by abel) le_self_add h4
      fun _ w5 hat5 hk5 _ ↦ ?_
    have h5 := h4.keeps hk5 (by simp)
    refine ⟨hat5.congr (add_comm _ _), fun k e' he' ↦ ?_, fun pte hpte ↦ ?_⟩
    · rw [h5.entries_eq] at he'
      exact h k e' he'
    · cases hpte
      rw [← not_not.1 hpage]
      exact h _ e he

theorem insert_spec {address : ℕ} (pte : Pte) (ha : address < userAddressLimit)
    (hR : R ⟨address / pageSize, pte⟩) :
    Triple μ {ref pte.frame} {lock (.space i)}
      (All (fun e ↦ e.virtualPage = address / pageSize ∨ R e) i) (insert i address pte)
      (fun _ ↦ {lock (.space i)}) fun _ s ↦ All R i s := by
  intro s x w hK hat h
  rw [insert, if_neg (Nat.not_le.2 ha)]
  have hle : ∀ F : Multiset Handle, {ref pte.frame} ≤ F + x := fun F ↦ hK.trans (le_add_left le_rfl)
  refine capacity_spec.next hat ⟨rfl, rfl⟩ ?_
  rintro _ w1 hat1 - ⟨h1, rfl⟩
  refine (entry_spec _).next hat1 h1 ?_
  rintro _ w2 hat2 - ⟨h2, rfl⟩
  have hroom := h2.room hat2.inv (Multiset.mem_of_le hat2.le (by simp))
  have hindex : index (w.sys.tlb i).capacity (address / pageSize) < (w.sys.tlb i).capacity :=
    Nat.mod_lt _ hroom
  -- the new entry, once the old one is gone
  have hset : ∀ {w' : World} {entries : ℕ → Option TlbEntry},
      At μ s x ({ref pte.frame} + {lock (.space i)}) w' →
      Holds i (w.sys.tlb i).capacity entries w'.sys →
      (∀ k e, entries k = some e → e.virtualPage = address / pageSize ∨ R e) →
      entries (index (w.sys.tlb i).capacity (address / pageSize)) = none →
      Prog.wp (rules μ) (Code.tlb i (.set (index (w.sys.tlb i).capacity (address / pageSize))
        (some ⟨address / pageSize, pte⟩)))
        (fun _ w'' ↦ At μ s x {lock (.space i)} w'' ∧ All R i w''.sys) w' := by
    intro w' entries hat' h' hR' hnone
    refine (set_spec hindex fun e he ↦ ?_).tail (F := 0) hat' (add_comm _ _) zero_le h'
      fun _ w'' hat'' _ h'' ↦ ⟨hat''.congr ?_, fun k e he ↦ ?_⟩
    · cases he
      rfl
    · rw [hnone]
      rfl
    · rw [h''.entries_eq] at he
      by_cases hk : k = index (w.sys.tlb i).capacity (address / pageSize)
      · subst hk
        rw [Function.update_self] at he
        cases he
        exact hR
      · rw [Function.update_of_ne hk] at he
        rcases hR' k e he with hpage | hRe
        · have hplace := (h'.index hat'.inv he).2
          rw [hpage] at hplace
          exact absurd hplace.symm hk
        · exact hRe
  split
  · rename_i hnone
    refine MiniMM.retain_spec.seq (F := {lock (.space i)}) hat2 rfl (hle _) trivial
      fun _ w3 hat3 hk3 _ ↦ ?_
    exact hset hat3 (h2.keeps hk3 (by simp)) h hnone
  · rename_i e he
    have hwhen : Triple μ 0 {lock (.space i)}
        (Holds i (w.sys.tlb i).capacity (w.sys.tlb i).entries)
        (Code.when (e.virtualPage ≠ address / pageSize) (Code.tlb i (.count .replacements)))
        (fun _ ↦ {lock (.space i)})
        fun _ s ↦ Holds i (w.sys.tlb i).capacity (w.sys.tlb i).entries s :=
      .when (fun _ ↦ count_spec _) fun _ ↦ ⟨rfl, fun _ h ↦ h⟩
    refine hwhen.next hat2 h2 fun _ w3 hat3 _ h3 ↦ ?_
    refine MiniMM.retain_spec.seq (F := {lock (.space i)}) hat3 rfl (hle _) trivial
      fun _ w4 hat4 hk4 _ ↦ ?_
    have h4 := h3.keeps hk4 (by simp)
    refine (entryClear_spec (h4.index hat4.inv he).1 he).seq (F := {ref pte.frame}) hat4
      (add_comm _ _) zero_le h4 fun _ w5 hat5 _ h5 ↦ ?_
    exact hset (hat5.congr (add_comm _ _)) h5 (fun k e' he' ↦ h k e' (of_update_none he'))
      (Function.update_self _ _ _)

theorem destroyFrom_spec (ks : List ℕ) :
    Triple μ 0 {lock (.space i)} (Holds i capacity entries) (destroyFrom i ks)
      (fun _ ↦ {lock (.space i)})
      fun _ s ↦ ∃ entries', Holds i capacity entries' s ∧
        (∀ j e, entries' j = some e → entries j = some e) ∧ ∀ k ∈ ks, entries' k = none := by
  induction ks generalizing entries with
  | nil => exact .pure rfl fun _ h ↦ ⟨entries, h, fun _ _ he ↦ he, fun _ hk ↦ nomatch hk⟩
  | cons k ks ih =>
    intro s x w hK hat h
    -- what an entry that is gone adds to the rest
    have hrest : ∀ {w' : World} {entries1 : ℕ → Option TlbEntry},
        At μ s x {lock (.space i)} w' → Holds i capacity entries1 w'.sys → entries1 k = none →
        (∀ j e, entries1 j = some e → entries j = some e) →
        Prog.wp (rules μ) (destroyFrom i ks) (fun _ w'' ↦ At μ s x {lock (.space i)} w'' ∧
          ∃ entries', Holds i capacity entries' w''.sys ∧
            (∀ j e, entries' j = some e → entries j = some e) ∧
            ∀ j ∈ k :: ks, entries' j = none) w' := by
      intro w' entries1 hat' h' hnone hsub
      refine ih.tail (F := 0) hat' rfl zero_le h' ?_
      rintro _ w'' hat'' - ⟨entries2, h2, hsub2, hnone2⟩
      refine ⟨hat'', entries2, h2, fun j e he ↦ hsub j e (hsub2 j e he), fun j hj ↦ ?_⟩
      rcases List.mem_cons.1 hj with rfl | hj
      · cases hj' : entries2 j with
        | none => rfl
        | some e => cases hnone.symm.trans (hsub2 j e hj')
      · exact hnone2 j hj
    refine (entry_spec k).next hat h ?_
    rintro _ w1 hat1 - ⟨h1, rfl⟩
    split
    · rename_i hnone
      exact hrest hat1 h1 hnone fun _ _ he ↦ he
    · rename_i e he
      refine (entryClear_spec (h1.index hat1.inv he).1 he).next hat1 h1
        fun _ w2 hat2 _ h2 ↦ ?_
      exact hrest hat2 h2 (Function.update_self _ _ _) fun _ _ ↦ of_update_none

theorem destroy_spec :
    Triple μ 0 {lock (.space i)} (fun _ ↦ True) (destroy i) (fun _ ↦ {lock (.space i)})
      fun _ s ↦ All (fun _ ↦ False) i s := by
  intro s x w hK hat _
  refine capacity_spec.next hat ⟨rfl, rfl⟩ ?_
  rintro _ w1 hat1 - ⟨h1, rfl⟩
  refine (destroyFrom_spec _).tail (F := 0) hat1 rfl zero_le h1 ?_
  rintro _ w2 hat2 - ⟨entries2, h2, -, hnone⟩
  refine ⟨hat2, fun k e he ↦ ?_⟩
  rw [h2.entries_eq] at he
  cases (hnone k (List.mem_range.2 (h2.index hat2.inv he).1)).symm.trans he

end Tlb

end MiniMM
