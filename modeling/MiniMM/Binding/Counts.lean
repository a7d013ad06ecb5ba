import MiniMM.Binding.Invariant

/-!
# References to backings

Making, keeping and releasing backings and notes keeps the counts, whoever owes the references.
-/

namespace MiniMM

open Code

namespace Sys

variable {s s' s'' : Sys} {sp : SpaceId → Space} {owed : Multiset BackingId} {b : BackingId}
  {n : NoteId}

/-- Which backings there are has not changed, only the counts. -/
structure Recounted (s s' : Sys) : Prop extends Kept s s' where
  backingInfo : s'.backingInfo = s.backingInfo
  nextBacking : s'.nextBacking = s.nextBacking

theorem Same.recounted (h : Same s s') : Recounted s s' := ⟨h.kept, h.backingInfo, h.nextBacking⟩

theorem Recounted.trans (h : Recounted s s') (h' : Recounted s' s'') : Recounted s s'' :=
  ⟨h.toKept.trans h'.toKept, h'.backingInfo.trans h.backingInfo, h'.nextBacking.trans h.nextBacking⟩

theorem Recounted.extend (h : Recounted s s') : Extends s s' :=
  h.toKept.extend h.nextBacking.ge fun b _ ↦ congrFun h.backingInfo b

theorem add_owed (tokens owed : Multiset BackingId) (b : BackingId) :
    tokens + (b ::ₘ owed) = tokens + owed + {b} := by
  rw [add_assoc, add_comm owed, Multiset.singleton_add]

namespace Tidy

theorem retain (h : Tidy s sp owed) (hlive : 0 < s.backingRefs b) (hb : b < s.nextBacking)
    (hs : Recounted s s') (hactive : s'.activeMappings = s.activeMappings)
    (hrefs : s'.backingRefs = Function.update s.backingRefs b (s.backingRefs b + 1)) :
    Tidy s' sp (b ::ₘ owed) := by
  refine h.extend hs.extend hs.nextSpace hs.nextNote.ge ?_ ?_ (fun n ↦ ?_)
    fun _ hb ↦ .inl (hs.nextBacking ▸ hb)
  · refine h.refs.change (fun y ↦ ?_) (show _ + 0 = _ + {b} by rw [add_zero, add_owed])
    rw [hrefs]
    by_cases hy : y = b
    · simp [hy]
    · simp [hy]
  · intro y hy
    rw [hs.nextBacking]
    rcases Multiset.mem_cons.1 hy with rfl | hy
    · exact hb
    · exact h.owed y hy
  · rw [hactive, h.active, liveBackings_eq (fun y _ ↦ congrFun hs.backingInfo y) (fun y _ ↦ ?_)
      hs.nextBacking]
    rw [hrefs]
    by_cases hy : y = b
    · simp [hy, hlive]
    · simp [hy]

theorem refs_next (h : Tidy s sp owed) : s.backingRefs s.nextBacking = 0 := by
  rw [h.refs, Multiset.count_eq_zero]
  intro hmem
  rcases Multiset.mem_add.1 hmem with hmem | hmem
  · obtain ⟨i, hi, hmem⟩ := Multiset.mem_sum.1 hmem
    obtain ⟨β, hβ, heq⟩ := List.mem_map.1 (Multiset.mem_coe.1 hmem)
    have hlt := (h.spaces i (Finset.mem_range.1 hi)).backing β hβ
    rw [heq] at hlt
    exact lt_irrefl _ hlt
  · exact lt_irrefl _ (h.owed _ hmem)

theorem newBacking (h : Tidy s sp owed) {info : BackingInfo} (hkept : Kept s s')
    (hnote : ∀ n, info.note = some n → n < s.nextNote)
    (hanon : info.kind = .anonPrivate → info.note = none) (hb : b = s.nextBacking)
    (hinfo : s'.backingInfo = Function.update s.backingInfo b info)
    (hrefs : s'.backingRefs = Function.update s.backingRefs b 1)
    (hnext : s'.nextBacking = b + 1)
    (hactive : ∀ n, s'.activeMappings n =
      s.activeMappings n + if info.note = some n then 1 else 0) :
    Tidy s' sp (b ::ₘ owed) := by
  subst hb
  have hold : ∀ y < s.nextBacking, s'.backingInfo y = s.backingInfo y := fun y hy ↦ by
    rw [hinfo, Function.update_of_ne hy.ne]
  have hlt : ∀ y, y < s'.nextBacking ↔ y < s.nextBacking ∨ y = s.nextBacking := fun y ↦ by
    rw [hnext]
    exact Nat.lt_succ_iff_lt_or_eq
  refine h.extend (hkept.extend (hnext ▸ Nat.le_succ _) hold) hkept.nextSpace
    hkept.nextNote.ge ?_ ?_ (fun n ↦ ?_) fun y hy ↦ ?_
  · refine h.refs.change (fun y ↦ ?_) (show _ + 0 = _ + {s.nextBacking} by rw [add_zero, add_owed])
    rw [hrefs]
    by_cases hy : y = s.nextBacking
    · simp [hy, h.refs_next]
    · simp [hy]
  · intro y hy
    rw [hlt]
    rcases Multiset.mem_cons.1 hy with rfl | hy
    · exact .inr rfl
    · exact .inl (h.owed y hy)
  · have hlive : s'.liveBackings n =
        if info.note = some n then insert s.nextBacking (s.liveBackings n)
        else s.liveBackings n := by
      ext y
      rw [mem_liveBackings, hlt, hrefs, hinfo]
      by_cases hy : y = s.nextBacking
      · subst hy
        rw [Function.update_self, Function.update_self]
        split_ifs with hn <;> simp [hn, mem_liveBackings]
      · rw [Function.update_of_ne hy, Function.update_of_ne hy]
        split_ifs with hn <;> simp [hy, mem_liveBackings]
    rw [hactive, h.active, hlive]
    split_ifs with hn
    · rw [Finset.card_insert_of_notMem]
      simp [mem_liveBackings]
    · rfl
  · refine ((hlt y).1 hy).imp_right fun heq ↦ ?_
    rw [heq, hinfo, Function.update_self, hkept.nextNote]
    exact ⟨hnote, hanon⟩

/-- A reference is given back, and with the last one the note has a mapping less. -/
theorem drop (h : Tidy s sp (b ::ₘ owed)) (hs : Recounted s s')
    (hrefs : s'.backingRefs = Function.update s.backingRefs b (s.backingRefs b - 1))
    (hactive : ∀ n, s'.activeMappings n =
      if s.backingRefs b = 1 ∧ (s.backingInfo b).note = some n then s.activeMappings n - 1
      else s.activeMappings n) : Tidy s' sp owed := by
  have hpos := h.live_of_owed (Multiset.mem_cons_self b owed)
  have hb := h.owed b (Multiset.mem_cons_self b owed)
  refine h.extend hs.extend hs.nextSpace hs.nextNote.ge ?_ (fun y hy ↦ ?_) (fun n ↦ ?_)
    fun _ hb ↦ .inl (hs.nextBacking ▸ hb)
  · refine h.refs.change (fun y ↦ ?_) (show _ + {b} = _ + 0 by rw [add_zero, add_owed])
    rw [hrefs]
    by_cases hy : y = b
    · subst hy
      simp only [Function.update_self, Multiset.count_singleton_self, Multiset.count_zero]
      exact Nat.sub_add_cancel hpos
    · simp [hy]
  · rw [hs.nextBacking]
    exact h.owed y (Multiset.mem_cons_of_mem hy)
  · have hlive : s'.liveBackings n =
        if s.backingRefs b = 1 then (s.liveBackings n).erase b else s.liveBackings n := by
      ext y
      rw [mem_liveBackings, hrefs, hs.backingInfo, hs.nextBacking]
      by_cases hy : y = b
      · subst hy
        rw [Function.update_self]
        split_ifs with hone
        · simp [hone]
        · rw [mem_liveBackings]
          refine and_congr_right fun _ ↦ and_congr_left fun _ ↦ ?_
          omega
      · rw [Function.update_of_ne hy]
        split_ifs <;> simp [mem_liveBackings, hy]
    rw [hactive, hlive, h.active]
    by_cases hone : s.backingRefs b = 1
    · by_cases hn : (s.backingInfo b).note = some n
      · rw [if_pos ⟨hone, hn⟩, if_pos hone,
          Finset.card_erase_of_mem (mem_liveBackings.2 ⟨hb, hpos, hn⟩)]
      · rw [if_neg (fun hand ↦ hn hand.2), if_pos hone, Finset.erase_eq_of_notMem]
        exact fun hmem ↦ hn (mem_liveBackings.1 hmem).2.2
    · rw [if_neg (fun hand ↦ hone hand.1), if_neg hone]

theorem setNoteSize (h : Tidy s sp owed) {size : ℕ}
    (hsize : s.activeMappings n ≠ 0 → s.noteSize n ≤ size) :
    Tidy { s with noteSize := Function.update s.noteSize n size } sp owed := by
  refine h.extend ⟨le_rfl, fun _ _ ↦ rfl, fun y hy hlive m hm ↦ ⟨rfl, ?_⟩⟩ rfl le_rfl h.refs h.owed
    h.active fun _ hb ↦ .inl hb
  by_cases hmn : m = n
  · subst hmn
    dsimp only
    rw [Function.update_self]
    exact hsize (h.active_pos hy hlive hm).ne'
  · dsimp only
    rw [Function.update_of_ne hmn]

theorem newNote (h : Tidy s sp owed) (info : NoteInfo) (size references : ℕ) :
    Tidy { s with
      noteInfo := Function.update s.noteInfo s.nextNote info
      noteSize := Function.update s.noteSize s.nextNote size
      noteRefs := Function.update s.noteRefs s.nextNote references
      activeMappings := Function.update s.activeMappings s.nextNote 0
      nextNote := s.nextNote + 1 } sp owed := by
  refine h.extend ⟨le_rfl, fun _ _ ↦ rfl, fun y hy _ m hm ↦ ?_⟩ rfl (Nat.le_succ _) h.refs h.owed
    (fun m ↦ ?_) fun _ hb ↦ .inl hb
  · have hne := (h.note y hy m hm).ne
    dsimp only
    rw [Function.update_of_ne hne, Function.update_of_ne hne]
    exact ⟨rfl, le_rfl⟩
  · by_cases hm : m = s.nextNote
    · subst hm
      dsimp only
      rw [Function.update_self, eq_comm, Finset.card_eq_zero, Finset.eq_empty_iff_forall_notMem]
      intro y hy
      obtain ⟨hlt, -, hnote⟩ := mem_liveBackings.1 hy
      exact lt_irrefl _ (h.note y hlt _ hnote)
    · dsimp only
      rw [Function.update_of_ne hm, h.active]
      rfl

end Tidy

end Sys

/-! ## Attaching -/

namespace Note

variable {s : Sys} {n : NoteId}

/-- The number of mappings of a note is set, and nothing else. -/
structure Counted (n : NoteId) (s : Sys) (k : ℕ) (s' : Sys) : Prop extends s.Recounted s' where
  backingRefs : s'.backingRefs = s.backingRefs
  activeMappings : s'.activeMappings = Function.update s.activeMappings n k

theorem counted_of_same {s1 s2 s3 s4 : Sys} {k : ℕ} (h1 : s1.Same s2)
    (h2 : s3 = { s2 with activeMappings := Function.update s2.activeMappings n k })
    (h3 : s3.Same s4) : Counted n s1 k s4 := by
  subst h2
  exact ⟨⟨⟨h3.space.trans h1.space, h3.nextSpace.trans h1.nextSpace, h3.noteInfo.trans h1.noteInfo,
    h3.noteSize.trans h1.noteSize, h3.nextNote.trans h1.nextNote⟩,
    h3.backingInfo.trans h1.backingInfo, h3.nextBacking.trans h1.nextBacking⟩,
    h3.backingRefs.trans h1.backingRefs, by rw [h3.activeMappings, h1.activeMappings]⟩

theorem mappingAttach_ends (n : NoteId) (s : Sys) :
    Ends (mappingAttach n) s fun status s' ↦ (status ≠ .ok ∧ s.Same s') ∨
      (status = .ok ∧ Counted n s (s.activeMappings n + 1) s') := by
  refine Silent.ends (silent_step trivial) fun i s1 h1 ↦ ?_
  refine Silent.ends (silent_step trivial) fun v s2 h2 ↦ ?_
  have hsame := h1.trans h2
  refine ends_exec rfl (ends_ite (fun _ ↦ ?_) fun _ ↦ ?_)
  · exact Silent.ends (silent_step trivial) fun _ s3 h3 ↦
      Prog.ends_pure (.inl ⟨by decide, hsame.trans h3⟩)
  · refine ends_exec rfl (Silent.ends (silent_step trivial) fun _ s3 h3 ↦ ?_)
    refine Prog.ends_pure (.inr ⟨rfl, ?_⟩)
    rw [← hsame.activeMappings]
    exact counted_of_same hsame rfl h3

theorem mappingDetach_ends (n : NoteId) (s : Sys) :
    Ends (mappingDetach n) s fun _ s' ↦ Counted n s (s.activeMappings n - 1) s' := by
  refine Silent.ends (silent_step trivial) fun i s1 h1 ↦ ?_
  refine Silent.ends (silent_step trivial) fun v s2 h2 ↦ ?_
  have hsame := h1.trans h2
  refine ends_exec rfl (Silent.ends (silent_when silent_abort) fun _ s3 h3 ↦ ?_)
  refine ends_exec rfl (Prog.ends_step fun _ s' hexec ↦ ?_)
  have h4 := Sys.exec_same (by trivial) hexec
  rw [← hsame.activeMappings]
  exact counted_of_same (hsame.trans h3) rfl h4

end Note

/-! ## Making and releasing backings -/

namespace Backing

variable {s : Sys} {sp : SpaceId → Space} {owed : Multiset BackingId} {b : BackingId}

/-- What `minimm_mapping_backing_create` leaves. -/
def Created (s : Sys) (sp : SpaceId → Space) (owed : Multiset BackingId) (note : Option NoteId)
    (flags : MapFlags) (r : Status × BackingId) (s' : Sys) : Prop :=
  s.Kept s' ∧ ((r.1 ≠ .ok ∧ s'.Tidy sp owed) ∨ (r.1 = .ok ∧ s'.Tidy sp (r.2 ::ₘ owed) ∧
    (s'.backingInfo r.2).note = note ∧ (s'.backingInfo r.2).kind.shared = flags.shared))

theorem created_new {s1 : Sys} (h : s.Tidy sp owed) (hs : s.Recounted s1)
    (hrefs : s1.backingRefs = s.backingRefs) {note : Option NoteId} {flags : MapFlags}
    {kind : BackingKind} (hnote : ∀ n, note = some n → n < s.nextNote)
    (hkind : kind.shared = flags.shared) (hanon : kind = .anonPrivate → note = none)
    (hactive : ∀ n, s1.activeMappings n =
      s.activeMappings n + if note = some n then 1 else 0) :
    Ends (do let b ← .step (.newBacking ⟨kind, note⟩); pure (Status.ok, b)) s1
      (Created s sp owed note flags) := by
  refine ends_exec rfl (Prog.ends_pure ?_)
  have hkept : s.Kept { s1 with
      backingInfo := Function.update s1.backingInfo s1.nextBacking ⟨kind, note⟩
      backingPages := Function.update s1.backingPages s1.nextBacking []
      backingRefs := Function.update s1.backingRefs s1.nextBacking 1
      nextBacking := s1.nextBacking + 1 } :=
    ⟨hs.space, hs.nextSpace, hs.noteInfo, hs.noteSize, hs.nextNote⟩
  refine ⟨hkept, .inr ⟨rfl, ?_, by simp, by simpa using hkind⟩⟩
  exact h.newBacking hkept hnote hanon hs.nextBacking (by rw [hs.backingInfo]) (by rw [hrefs]) rfl
    hactive

theorem create_ends (h : s.Tidy sp owed) {note : Option NoteId} (flags : MapFlags)
    (hnote : ∀ n, note = some n → n < s.nextNote) :
    Ends (create note flags) s (Created s sp owed note flags) := by
  refine ends_ite (fun _ ↦ Prog.ends_pure ⟨.refl s, .inl ⟨by decide, h⟩⟩) fun _ ↦ ?_
  refine Silent.ends silent_malloc fun _ s1 h1 ↦ ?_
  refine ends_ite (fun _ ↦ Prog.ends_pure ⟨h1.kept, .inl ⟨by decide, h.same h1⟩⟩) fun _ ↦ ?_
  cases note with
  | none =>
    refine created_new h h1.recounted h1.backingRefs hnote ?_ (fun _ ↦ rfl) fun n ↦ ?_
    · split_ifs with hshared <;> simp [BackingKind.shared, hshared]
    · simp [h1.activeMappings]
  | some n =>
    refine (Note.mappingAttach_ends n s1).bind fun status s2 h2 ↦ ?_
    rcases h2 with ⟨hfail, h2⟩ | ⟨rfl, h2⟩
    · rw [if_pos hfail]
      have hsame := h1.trans h2
      exact Prog.ends_pure ⟨hsame.kept, .inl ⟨hfail, h.same hsame⟩⟩
    · rw [if_neg (by decide)]
      refine Silent.ends (silent_step trivial) fun _ s3 h3 ↦ ?_
      refine created_new h ((h1.recounted.trans h2.toRecounted).trans h3.recounted) ?_ hnote ?_ ?_
        fun m ↦ ?_
      · rw [h3.backingRefs, h2.backingRefs, h1.backingRefs]
      · split_ifs with hshared <;> simp [BackingKind.shared, hshared]
      · split_ifs <;> exact fun hkind ↦ nomatch hkind
      · rw [h3.activeMappings, h2.activeMappings, h1.activeMappings]
        by_cases hm : m = n
        · simp [hm]
        · simp [hm, Ne.symm hm]

theorem retain_ends (h : s.Tidy sp owed) (hlive : 0 < s.backingRefs b) (hb : b < s.nextBacking) :
    Ends (retain b) s fun _ s' ↦ s.Recounted s' ∧ s'.Tidy sp (b ::ₘ owed) ∧
      s'.noteInfo = s.noteInfo := by
  refine Prog.ends_step fun _ s' hexec ↦ ?_
  simp only [Sys.exec, Sys.countUp] at hexec
  split at hexec <;> cases hexec
  have hs : s.Recounted
      { s with backingRefs := Function.update s.backingRefs b (s.backingRefs b + 1) } :=
    ⟨⟨rfl, rfl, rfl, rfl, rfl⟩, rfl, rfl⟩
  exact ⟨hs, h.retain hlive hb hs rfl rfl, rfl⟩

theorem release_ends (h : s.Tidy sp (b ::ₘ owed)) :
    Ends (release b) s fun _ s' ↦ s.Kept s' ∧ s'.Tidy sp owed := by
  refine ends_exec rfl ?_
  have hs : s.Recounted
      { s with backingRefs := Function.update s.backingRefs b (s.backingRefs b - 1) } :=
    ⟨⟨rfl, rfl, rfl, rfl, rfl⟩, rfl, rfl⟩
  by_cases hlast : s.backingRefs b = 1
  · rw [if_pos hlast]
    refine Silent.ends (CachedPages.silent_release _) fun _ s1 h1 ↦ ?_
    cases hnote : (s.backingInfo b).note with
    | none =>
      have hr := hs.trans h1.recounted
      refine Prog.ends_pure ⟨hr.toKept, h.drop hr h1.backingRefs fun n ↦ ?_⟩
      rw [h1.activeMappings]
      simp [hnote]
    | some n =>
      refine (Note.mappingDetach_ends n s1).bind fun _ s2 h2 s3 s' hrun ↦ ?_
      obtain ⟨-, h3⟩ := Quiet.run Note.silent_release hrun
      have hr := ((hs.trans h1.recounted).trans h2.toRecounted).trans h3.recounted
      refine ⟨hr.toKept, h.drop hr ?_ fun m ↦ ?_⟩
      · rw [h3.backingRefs, h2.backingRefs, h1.backingRefs]
      · rw [h3.activeMappings, h2.activeMappings, h1.activeMappings]
        by_cases hm : m = n
        · simp [hm, hlast, hnote]
        · simp [hm, hnote, Ne.symm hm]
  · rw [if_neg hlast]
    refine Prog.ends_pure ⟨hs.toKept, h.drop hs rfl fun n ↦ ?_⟩
    rw [if_neg fun hand ↦ hlast hand.1]

end Backing

namespace Binding

variable {s : Sys} {sp : SpaceId → Space} {owed : Multiset BackingId}

/-- The references of a list of bindings. -/
def references (bindings : List Binding) : Multiset BackingId := ↑(bindings.map Binding.backing)

theorem references_cons (β : Binding) (rest : List Binding) :
    references (β :: rest) = β.backing ::ₘ references rest := rfl

theorem listDestroy_ends {bindings : List Binding} (h : s.Tidy sp (references bindings + owed)) :
    Ends (listDestroy bindings) s fun _ s' ↦ s.Kept s' ∧ s'.Tidy sp owed := by
  induction bindings generalizing s with
  | nil =>
    refine Prog.ends_pure ⟨.refl s, ?_⟩
    rwa [references, List.map_nil, Multiset.coe_nil, zero_add] at h
  | cons β rest ih =>
    rw [references_cons, Multiset.cons_add] at h
    refine (Backing.release_ends h).bind fun _ s1 h1 ↦ ?_
    exact (ih h1.2).mono fun _ s' h' ↦ ⟨h1.1.trans h'.1, h'.2⟩

theorem listCloneFrom_ends {i : SpaceId} {bindings copies : List Binding}
    (h : s.Tidy sp (references copies + owed)) (hi : i < s.nextSpace)
    (hmem : ∀ β ∈ bindings, β ∈ (sp i).bindings) :
    Ends (listCloneFrom bindings copies) s fun r s' ↦ s.Kept s' ∧
      ((r.1 ≠ .ok ∧ s'.Tidy sp owed) ∨
        (r = (.ok, copies ++ bindings) ∧ s'.Tidy sp (references r.2 + owed))) := by
  induction bindings generalizing s copies with
  | nil =>
    refine Prog.ends_pure ⟨.refl s, .inr ⟨by rw [List.append_nil], h⟩⟩
  | cons β rest ih =>
    obtain ⟨hβ, hrest⟩ := List.forall_mem_cons.1 hmem
    refine Silent.ends silent_malloc fun _ s1 h1 ↦ ?_
    have ht := h.same h1
    have hi1 : i < s1.nextSpace := h1.nextSpace ▸ hi
    refine ends_ite (fun _ ↦ ?_) fun _ ↦ ?_
    · refine (listDestroy_ends ht).bind fun _ s2 h2 ↦ ?_
      exact Prog.ends_pure ⟨h1.kept.trans h2.1, .inl ⟨by decide, h2.2⟩⟩
    · refine (Backing.retain_ends ht (ht.live_of_binding hi1 hβ)
        ((ht.spaces i hi1).backing β hβ)).bind fun _ s2 h2 ↦ ?_
      have hkept := h1.kept.trans h2.1.toKept
      have howed : β.backing ::ₘ (references copies + owed) =
          references (copies ++ [β]) + owed := by
        rw [references, references, List.map_append, List.map_singleton, ← Multiset.coe_add,
          Multiset.coe_singleton, add_right_comm, ← Multiset.singleton_add, add_comm]
      have ht2 := h2.2.1
      rw [howed] at ht2
      refine (ih ht2 (hkept.nextSpace ▸ hi) hrest).mono fun r s' h' ↦ ⟨hkept.trans h'.1, ?_⟩
      refine h'.2.imp_right fun hr ↦ ⟨?_, hr.2⟩
      rw [hr.1, List.append_assoc, List.singleton_append]

end Binding

end MiniMM
