import MiniMM.Binding.Edits

/-!
# The calls that change mappings, under the lock

Each body keeps the bindings of its space in line with its mappings, and owes a reference for every
binding it hands back to be destroyed.
-/

namespace MiniMM

open Vma Code VmaSnapshot Binding

theorem Sys.Tidy.unlock {s : Sys} {sp : SpaceId → Space} {owed : Multiset BackingId}
    (h : s.Tidy sp owed) (space : SpaceId → Space) (held : LockId → Bool) :
    Sys.Tidy { s with space := space, held := held } sp owed :=
  h.extend ⟨le_rfl, fun _ _ ↦ rfl, fun _ _ _ _ _ ↦ ⟨rfl, le_rfl⟩⟩ rfl le_rfl h.refs h.owed h.active
    fun _ hb ↦ .inl hb

/-- A call has locked the space `i`, whose contents are `c`, and is in the state `s1` now. -/
structure Held (i : SpaceId) (s : Sys) (c : Space) (owed : Multiset BackingId) (s1 : Sys) :
    Prop where
  space : s.space i = c
  lt : i < s.nextSpace
  kept : s.Kept s1
  tidy : s1.Tidy s.space owed

/-- A call that has locked the space `i` leaves the contents `c'` for it. -/
structure Leaves (i : SpaceId) (s : Sys) (owed : Multiset BackingId) (c' : Space) (s1 : Sys) :
    Prop where
  kept : s.Kept s1
  later : (s.space i).Later c'
  tidy : s1.Tidy (Function.update s.space i c') owed

namespace Held

variable {i : SpaceId} {s s1 s2 : Sys} {c c' : Space} {owed owed' : Multiset BackingId}
  {b : BackingId}

theorem same (h : Held i s c owed s1) (hsame : s1.Same s2) : Held i s c owed s2 :=
  ⟨h.space, h.lt, h.kept.trans hsame.kept, h.tidy.same hsame⟩

theorem ok (h : Held i s c owed s1) : s1.SpaceOk c :=
  h.space ▸ h.tidy.spaces i (h.kept.nextSpace ▸ h.lt)

theorem good (h : Held i s c owed s1) : c.vmaSnapshot.Good := h.ok.good

theorem live (h : Held i s c owed s1) {β : Binding} (hβ : β ∈ c.bindings) :
    0 < s1.backingRefs β.backing :=
  h.tidy.live_of_binding (h.kept.nextSpace ▸ h.lt) (h.space ▸ hβ)

theorem leaves (h : Held i s c owed s1) (hc' : s1.SpaceOk c')
    (hbackings : c'.backings + owed' = c.backings + owed) (hlater : c.Later c') :
    Leaves i s owed' c' s1 where
  kept := h.kept
  later := h.space ▸ hlater
  tidy := h.tidy.put (h.kept.nextSpace ▸ h.lt) hc' (h.space ▸ hbackings)

theorem unchanged (h : Held i s c owed s1) (halike : Space.Alike c c') : Leaves i s owed c' s1 :=
  h.leaves (h.ok.alike halike) (by rw [halike.backings]) halike.later

theorem ends_quiet {α : Type} {p : Code (α × Space)} (h : Held i s c owed s1)
    (hp : Quiet p fun r ↦ Space.Alike c r.2) :
    Ends p s1 fun r s' ↦ Leaves i s owed r.2 s' :=
  (hp.ends s1).mono fun _ _ hr ↦ (h.same hr.2).unchanged hr.1

/-- The mappings are others, and the bindings that are not in use any more have been removed. -/
theorem pruned (h : Held i s c owed s1) {bindings : List Binding} {next : VmaSnapshot}
    (hsnapshot : c'.vmaSnapshot = next) (hc : c'.bindings = (prune bindings next).1)
    (hgood : next.Good) (hnodup : (bindings.map Binding.cookie).Nodup)
    (hbound : ∀ a x, viewAt next.ranges a = some x →
      ∃ β ∈ bindings, β.cookie = x.mappingCookie ∧ s1.Backs β.backing x)
    (hcookie : ∀ β ∈ bindings, 0 < β.cookie ∧ β.cookie < c'.nextMappingCookie)
    (hbacking : ∀ β ∈ bindings, β.backing < s1.nextBacking)
    (hnext : c.nextMappingCookie ≤ c'.nextMappingCookie)
    (hold : ∀ β ∈ bindings, β.cookie < c.nextMappingCookie → β ∈ c.bindings)
    (howed : references bindings + owed' = c.backings + owed) :
    Leaves i s (references (prune bindings next).2 + owed') c' s1 := by
  subst hsnapshot
  refine h.leaves ?_ ?_ ⟨hnext, fun β hβ hlt ↦ ?_⟩
  · exact .prune hgood hnodup hbound hcookie (h.ok.next.trans_le hnext) hbacking hc
  · rw [← howed, Space.backings, hc, ← add_assoc]
    exact congrArg (· + owed') (prune_backings bindings c'.vmaSnapshot)
  · rw [hc, prune] at hβ
    exact hold β (List.mem_filter.1 hβ).1 hlt

/-- A mapping with a new cookie has been bound to a backing that the call had a reference to. -/
theorem bound (h : Held i s c (b ::ₘ owed) s1) {v : Vma} {next : VmaSnapshot}
    (hgraft : Grafted c.vmaSnapshot v next) (hv : v.mappingCookie = c.nextMappingCookie)
    (hnew : ∀ a, v.contains a = true → s1.Backs b (v.view a))
    (hsnapshot : c'.vmaSnapshot = next)
    (hc : c'.bindings = (prune (⟨b, c.nextMappingCookie⟩ :: c.bindings) next).1)
    (hcookie : c'.nextMappingCookie = c.nextMappingCookie + 1) :
    Leaves i s (references (prune (⟨b, c.nextMappingCookie⟩ :: c.bindings) next).2 + owed)
      c' s1 := by
  refine h.pruned hsnapshot hc hgraft.good (h.ok.fresh b) (fun a x hx ↦ ?_) ?_ ?_ ?_ ?_ ?_
  · exact h.ok.fresh_bound hgraft hv hnew hx
  · rw [hcookie]
    exact h.ok.fresh_cookie b
  · exact List.forall_mem_cons.2 ⟨h.tidy.owed b (Multiset.mem_cons_self b owed), h.ok.backing⟩
  · rw [hcookie]
    exact Nat.le_succ _
  · exact List.forall_mem_cons.2 ⟨fun hlt ↦ absurd hlt (lt_irrefl _), fun β hβ _ ↦ hβ⟩
  · rw [references_cons, Multiset.cons_add, Multiset.add_cons]
    rfl

theorem republished (h : Held i s c owed s1) {next : VmaSnapshot}
    (hsnapshot : c'.vmaSnapshot = next) (hc : c'.bindings = c.bindings)
    (hcookie : c'.nextMappingCookie = c.nextMappingCookie) (hgood : next.Good)
    (hbound : ∀ a x, viewAt next.ranges a = some x →
      ∃ β ∈ c.bindings, β.cookie = x.mappingCookie ∧ s1.Backs β.backing x)
    (hused : ∀ k, Space.Occurs c.vmaSnapshot.ranges k → Space.Occurs next.ranges k) :
    Leaves i s owed c' s1 := by
  subst hsnapshot
  have hok := h.ok
  refine h.leaves ⟨hgood, ?_, ?_, fun β hβ ↦ ?_, ?_, ?_, ?_⟩ ?_ ⟨hcookie.ge, fun β hβ _ ↦ hc ▸ hβ⟩
  · rw [hc]
    exact hok.nodup
  · rw [hc]
    exact hbound
  · exact hused _ (hok.used β (hc ▸ hβ))
  · rw [hc, hcookie]
    exact hok.cookie
  · rw [hcookie]
    exact hok.next
  · rw [hc]
    exact hok.backing
  · rw [Space.backings, hc]
    rfl

theorem added (h : Held i s c (b ::ₘ owed) s1) {v : Vma} {next : VmaSnapshot}
    (hins : Inserted c.vmaSnapshot v next) (hv : v.mappingCookie = c.nextMappingCookie)
    (hnew : ∀ a, v.contains a = true → s1.Backs b (v.view a))
    (hsnapshot : c'.vmaSnapshot = next)
    (hc : c'.bindings = ⟨b, c.nextMappingCookie⟩ :: c.bindings)
    (hcookie : c'.nextMappingCookie = c.nextMappingCookie + 1) : Leaves i s owed c' s1 := by
  subst hsnapshot
  have hok := h.ok
  refine h.leaves ⟨hins.good, ?_, fun a x hx ↦ ?_, ?_, ?_, ?_, ?_⟩ ?_ ⟨?_, ?_⟩
  · rw [hc]
    exact hok.fresh b
  · rw [hc]
    exact hok.fresh_bound hins.grafted hv hnew hx
  · rw [hc]
    refine List.forall_mem_cons.2 ⟨?_, fun β hβ ↦ ?_⟩
    · have hstart := contains_iff.2 ⟨le_refl v.start, hins.valid.lt⟩
      exact ⟨v.start, _, hins.grafted.placed _ hstart, hv⟩
    · obtain ⟨a, x, hx, hk⟩ := hok.used β hβ
      refine ⟨a, x, ?_, hk⟩
      rwa [hins.view, if_neg fun ha ↦ ?_]
      rw [hins.free a ha] at hx
      cases hx
  · rw [hc, hcookie]
    exact hok.fresh_cookie b
  · rw [hcookie]
    exact Nat.succ_pos _
  · rw [hc]
    exact List.forall_mem_cons.2 ⟨h.tidy.owed b (Multiset.mem_cons_self b owed), hok.backing⟩
  · rw [Space.backings, hc, Multiset.add_cons, ← Multiset.cons_add]
    rfl
  · rw [hcookie]
    exact Nat.le_succ _
  · rw [hc]
    exact List.forall_mem_cons.2 ⟨fun hlt ↦ absurd hlt (lt_irrefl _), fun β hβ _ ↦ hβ⟩

theorem retain (h : Held i s c owed s1) {β : Binding} (hβ : β ∈ c.bindings) :
    Ends (Backing.retain β.backing) s1 fun _ s2 ↦
      Held i s c (β.backing ::ₘ owed) s2 ∧ s1.Recounted s2 :=
  (Backing.retain_ends h.tidy (h.live hβ) (h.ok.backing β hβ)).mono fun _ _ h2 ↦
    ⟨⟨h.space, h.lt, h.kept.trans h2.1.toKept, h2.2.1⟩, h2.1⟩

end Held

namespace Space

variable {i : SpaceId} {s s1 : Sys} {c : Space} {owed : Multiset BackingId} {b : BackingId}

theorem references_one (b : BackingId) (owed : Multiset BackingId) :
    references [⟨b, 0⟩] + owed = b ::ₘ owed := by
  rw [references_cons, Multiset.cons_add]
  exact congrArg (b ::ₘ ·) (zero_add owed)

theorem references_nil (owed : Multiset BackingId) : references [] + owed = owed := zero_add _

theorem mmapLocked_ends (h : Held i s c (b ::ₘ owed) s1) {args : MmapArgs} {length : ℕ}
    {maximum : Prot}
    (hnew : ∀ address cookie a,
      (mappingMakeVma args address (address + length) maximum cookie).contains a = true →
      s1.Backs b ((mappingMakeVma args address (address + length) maximum cookie).view a)) :
    Ends (mmapLocked i args length maximum b c) s1 fun r s' ↦
      Leaves i s (references r.1.2.2 + owed) r.2 s' ∧ (r.1.2.1 ≠ addressAuto →
        Grafted c.vmaSnapshot (mappingMakeVma args r.1.2.1 (r.1.2.1 + length) maximum
          c.nextMappingCookie) r.2.vmaSnapshot) := by
  have hfail : ∀ {s2 : Sys}, Held i s c (b ::ₘ owed) s2 →
      Leaves i s (references [⟨b, 0⟩] + owed) c s2 ∧ (addressAuto ≠ addressAuto →
        Grafted c.vmaSnapshot (mappingMakeVma args addressAuto (addressAuto + length) maximum
          c.nextMappingCookie) c.vmaSnapshot) := fun h2 ↦ by
    rw [references_one]
    exact ⟨h2.unchanged (.refl c), fun hne ↦ absurd rfl hne⟩
  refine ends_ite (fun _ ↦ Prog.ends_pure (hfail h)) fun _ ↦ ?_
  refine ((quiet_mmapPlace h.good args length maximum).ends s1).bind ?_
  rintro ⟨status, address, _ | next⟩ s2 ⟨hplace, h12⟩
  · exact Prog.ends_pure (hfail (h.same h12))
  have hgraft := hplace next rfl
  refine Silent.ends (silent_ite silent_unmapPagesLocked trivial) fun t s3 h23 ↦ ?_
  refine ((quiet_publishLocked _ next).ends s3).bind ?_
  rintro _ s4 ⟨rfl, h34⟩
  have hpopulate : ∀ c1 : Space, Quiet (if args.flags.populate && args.protection ≠ .none then
      populateRange (length / pageSize) c1 address else pure c1) fun c' ↦ Alike c1 c' :=
    fun c1 ↦ quiet_ite (quiet_populateRange _ _ _) (.refl c1)
  refine ((hpopulate _).ends s4).bind ?_
  rintro c' s5 ⟨halike, h45⟩
  have hsame := ((h12.trans h23).trans h34).trans h45
  refine Prog.ends_pure ⟨(h.same hsame).bound hgraft rfl (fun a ha ↦ ?_) halike.vmaSnapshot
    halike.bindings ?_, fun _ ↦ ?_⟩
  · exact (hnew address _ a ha).recounted hsame.recounted
  · exact congrArg (· + 1) halike.nextMappingCookie
  · rw [show _ = next from halike.vmaSnapshot]
    exact hgraft

theorem munmapLocked_ends (h : Held i s c owed s1) (start stop : ℕ) :
    Ends (munmapLocked i start stop c) s1 fun r s' ↦
      Leaves i s (references r.1.2 + owed) r.2 s' := by
  refine ((quiet_remove h.good start stop).ends s1).bind ?_
  rintro ⟨status, _ | next⟩ s2 ⟨hremove, h12⟩
  · refine Prog.ends_pure ?_
    rw [references_nil]
    exact (h.same h12).unchanged (.refl c)
  have hremoved := hremove next rfl
  refine Silent.ends silent_unmapPagesLocked fun t s3 h23 ↦ ?_
  refine ((quiet_publishLocked _ next).ends s3).bind ?_
  rintro _ s4 ⟨rfl, h34⟩
  have h4 := h.same ((h12.trans h23).trans h34)
  refine Prog.ends_pure (h4.pruned rfl rfl hremoved.good h4.ok.nodup (fun a x hx ↦ ?_) h4.ok.cookie
    h4.ok.backing le_rfl (fun β hβ _ ↦ hβ) rfl)
  exact h4.ok.bound a x (hremoved.old hx)

theorem mprotectLocked_ends (h : Held i s c owed s1) (start stop : ℕ) (protection : Prot) :
    Ends (mprotectLocked i start stop protection c) s1 fun r s' ↦ Leaves i s owed r.2 s' := by
  refine ((quiet_protect h.good start stop protection).ends s1).bind ?_
  rintro ⟨status, _ | next⟩ s2 ⟨hprotect, h12⟩
  · exact Prog.ends_pure ((h.same h12).unchanged (.refl c))
  have hprot := hprotect next rfl
  refine Silent.ends (PageTable.silent_walkRange (PageTable.silent_ignoring fun _ _ ↦
    PageTable.silent_protect)) fun t s3 h23 ↦ ?_
  refine Silent.ends Tlb.silent_invalidateRange fun _ s4 h34 ↦ ?_
  refine ((quiet_publishLocked _ next).ends s4).bind ?_
  rintro _ s5 ⟨rfl, h45⟩
  have h5 := h.same (((h12.trans h23).trans h34).trans h45)
  refine Prog.ends_pure (h5.republished rfl rfl rfl hprot.good (fun a x hx ↦ ?_) ?_)
  · obtain ⟨f, hf⟩ := hprot.view a
    rw [hf, Option.map_eq_some_iff] at hx
    obtain ⟨y, hy, rfl⟩ := hx
    obtain ⟨β, hβ, hk, hbacks⟩ := h5.ok.bound a y hy
    exact ⟨β, hβ, hk, hbacks.congr rfl rfl rfl⟩
  · rintro k ⟨a, x, hx, hk⟩
    obtain ⟨f, hf⟩ := hprot.view a
    exact ⟨a, { x with prot := f x }, by rw [hf, hx]; rfl, hk⟩

theorem mappingCopyFrom_ends (h : Held i s c owed s1) {source length hint : ℕ} {mapping : Vma}
    {β : Binding} (hmapping : mapping ∈ c.vmaSnapshot.ranges)
    (hlength : mapping.stop - mapping.start = length)
    (hβ : Binding.find mapping.mappingCookie c.bindings = some β) :
    Ends (mappingCopyFrom i c source length hint mapping β.backing) s1 fun r s' ↦
      Leaves i s (references r.1.2.2 + owed) r.2 s' := by
  have hfail : ∀ {s2 : Sys}, Held i s c owed s2 → Leaves i s (references [] + owed) c s2 :=
    fun h2 ↦ by
      rw [references_nil]
      exact h2.unchanged (.refl c)
  unfold mappingCopyFrom
  generalize hcollect : collectCopyPages c.pageTable source (source + length) = collect
  refine Silent.ends (silent_collectCopyPages hcollect) fun pages s2 h12 ↦ ?_
  refine ends_ite (fun _ ↦ Prog.ends_pure (hfail (h.same h12))) fun _ ↦ ?_
  have hplace : ∀ vmaAt : ℕ → Vma, Quiet (if hint ≠ addressAuto then c.placeNear hint length vmaAt
      else c.placeInGap c.mmapBase length vmaAt) fun r ↦
        ∀ t, r.2.2 = some t → Inserted c.vmaSnapshot (vmaAt r.2.1) t := fun vmaAt ↦
    quiet_ite (quiet_placeNear h.good _ _ _) (quiet_placeInGap h.good _ _ _)
  refine ((hplace _).ends s2).bind ?_
  rintro ⟨status, destination, _ | next⟩ s3 ⟨hplaced, h23⟩
  · exact Prog.ends_pure (hfail (h.same (h12.trans h23)))
  have hins := hplaced next rfl
  refine Silent.ends (silent_bind silent_malloc fun _ ↦ trivial) fun status s4 h34 ↦ ?_
  have h14 := (h12.trans h23).trans h34
  refine ends_ite (fun _ ↦ Prog.ends_pure (hfail (h.same h14))) fun _ ↦ ?_
  have h4 := h.same h14
  refine (h4.retain (mem_of_find hβ).1).bind fun _ s5 h5 ↦ ?_
  refine Silent.ends silent_copyEntries fun r s6 h56 ↦ ?_
  refine ends_ite (fun _ ↦ Prog.ends_pure ?_) fun _ ↦ ?_
  · rw [references_one]
    exact (h5.1.same h56).unchanged alike_setTable
  · refine ((quiet_publishLocked _ next).ends s6).bind ?_
    rintro _ s7 ⟨rfl, h67⟩
    have h7 := h5.1.same (h56.trans h67)
    refine Prog.ends_pure ?_
    rw [references_nil]
    refine h7.added hins rfl (fun a ha ↦ ?_) rfl rfl rfl
    refine h7.ok.backs_like hmapping hβ ha rfl rfl rfl fun n hn ↦ ?_
    have hreach := h7.ok.reaches hmapping hβ hn
    simp only [Nat.add_sub_cancel_left]
    omega

theorem mappingCopyLocked_ends (h : Held i s c owed s1) (source length hint : ℕ) :
    Ends (mappingCopyLocked i source length hint c) s1 fun r s' ↦
      Leaves i s (references r.1.2.2 + owed) r.2 s' := by
  have hfail : Leaves i s (references [] + owed) c s1 := by
    rw [references_nil]
    exact h.unchanged (.refl c)
  refine ends_ite (fun _ ↦ Prog.ends_pure hfail) fun _ ↦ ?_
  split
  · exact Prog.ends_pure hfail
  next mapping hlookup =>
  obtain ⟨hmapping, -, -⟩ := (lookup_eq_some h.good).1 hlookup
  refine ends_ite (fun _ ↦ Prog.ends_pure hfail) fun hrange ↦ ?_
  split
  · exact Prog.ends_pure hfail
  next β hβ =>
  refine mappingCopyFrom_ends h hmapping ?_ hβ
  rw [not_or, not_or] at hrange
  omega

theorem extendHeapLocked_ends (h : Held i s c owed s1) (base start stop : ℕ) :
    Ends (extendHeapLocked base start stop c) s1 fun r s' ↦ Leaves i s owed r.2 s' := by
  have hfail : ∀ {s2 : Sys}, Held i s c owed s2 → Leaves i s owed c s2 :=
    fun h2 ↦ h2.unchanged (.refl c)
  unfold extendHeapLocked
  split
  · exact Prog.ends_pure (hfail h)
  next tail hlookup =>
  refine ends_ite (fun _ ↦ Prog.ends_pure (hfail h)) fun _ ↦ ?_
  refine ends_ite (fun _ ↦ Prog.ends_pure (hfail h)) fun _ ↦ ?_
  split
  · exact Prog.ends_pure (hfail h)
  next β hβ =>
  obtain ⟨hmem, hcookie⟩ := mem_of_find hβ
  refine ends_exec rfl (ends_ite (fun _ ↦ Prog.ends_pure (hfail h)) fun hkind ↦ ?_)
  rw [not_not] at hkind
  refine ((quiet_insert h.good (heapExtension tail start stop)).ends s1).bind ?_
  rintro ⟨status, _ | next⟩ s2 ⟨hinsert, h12⟩
  · exact Prog.ends_pure (hfail (h.same h12))
  have hins := hinsert next rfl
  refine ((quiet_publishLocked _ next).ends s2).bind ?_
  rintro _ s3 ⟨rfl, h23⟩
  have h3 := h.same (h12.trans h23)
  refine Prog.ends_pure (h3.republished rfl rfl rfl hins.good (fun a x hx ↦ ?_) ?_)
  · cases ha : (heapExtension tail start stop).contains a with
    | false => exact h3.ok.bound a x (hins.grafted.old a x hx ha)
    | true =>
      rw [hins.grafted.placed a ha] at hx
      cases hx
      -- a private anonymous backing has no note, so there is no limit to keep
      have hnone := h.tidy.anonymous _ (h.ok.backing β hmem) hkind
      have hbacks : s1.Backs β.backing ((heapExtension tail start stop).view a) :=
        ⟨by rw [hkind]; rfl, fun n hn ↦ absurd (hnone.symm.trans hn) (by simp),
          fun n hn ↦ absurd (hnone.symm.trans hn) (by simp)⟩
      exact ⟨β, hmem, hcookie, hbacks.recounted (h12.trans h23).recounted⟩
  · rintro k ⟨a, x, hx, hk⟩
    refine ⟨a, x, ?_, hk⟩
    rwa [hins.view, if_neg fun ha ↦ ?_]
    rw [hins.free a ha] at hx
    cases hx

end Space

end MiniMM
