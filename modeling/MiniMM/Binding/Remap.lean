import MiniMM.Binding.Locked

/-!
# Moving mappings, and forking

`minimm_mremap` and `minimm_space_fork` under the lock, and the end of a space.
-/

namespace MiniMM

open Vma Code VmaSnapshot Binding

namespace Space

variable {i : SpaceId} {s s1 : Sys} {c : Space} {owed : Multiset BackingId} {mapping : Vma}
  {newSize : ℕ} {β : Binding}

/-- The note behind a mapping has room for it to be of the new size. -/
def HasRoom (s : Sys) (mapping : Vma) (newSize : ℕ) (b : BackingId) : Prop :=
  ∀ n, (s.backingInfo b).note = some n → mapping.noteOffset + newSize ≤ s.noteSize n

theorem HasRoom.recounted {s' : Sys} {b : BackingId} (h : HasRoom s mapping newSize b)
    (hs : s.Recounted s') : HasRoom s' mapping newSize b := by
  intro n hn
  rw [hs.backingInfo] at hn
  rw [hs.noteSize]
  exact h n hn

theorem mremapFits_ends (s : Sys) (b : BackingId) (mapping : Vma) (newSize : ℕ) :
    Ends (mremapFits (s.backingInfo b) mapping newSize) s fun fits s' ↦ s.Same s' ∧
      (fits = true → HasRoom s mapping newSize b) := by
  unfold mremapFits
  split
  · next hnone =>
    refine Prog.ends_pure ⟨.refl s, fun _ n hn ↦ ?_⟩
    rw [hnone] at hn
    cases hn
  · next m hm =>
    refine ends_exec rfl (Prog.ends_pure ⟨.refl s, fun hfits n hn ↦ ?_⟩)
    rw [hm] at hn
    cases hn
    rw [Bool.and_eq_true, decide_eq_true_eq, decide_eq_true_eq] at hfits
    omega

theorem viewAt_mapping (h : c.vmaSnapshot.Good) (hmapping : mapping ∈ c.vmaSnapshot.ranges) {a : ℕ}
    (ha : mapping.start ≤ a ∧ a < mapping.stop) :
    viewAt c.vmaSnapshot.ranges a = some (mapping.view a) :=
  h.ordered.viewAt_iff.2 ⟨mapping, hmapping, contains_iff.2 ha, rfl⟩

/-- What `minimm_mremap` leaves when it tries to do without a move: it is done, or nothing has
changed. -/
def InPlace (i : SpaceId) (s : Sys) (c : Space) (owed : Multiset BackingId) (s1 : Sys)
    (r : Option RemapResult × Space) (s' : Sys) : Prop :=
  (∃ result, r.1 = some result ∧ Leaves i s (references result.2.2 + owed) r.2 s') ∨
    (r = (none, c) ∧ s1.Same s')

theorem inPlace_failed {s2 : Sys} (h : Held i s c owed s2) (status : Status) (address : ℕ) :
    InPlace i s c owed s1 (some (status, address, []), c) s2 := by
  refine .inl ⟨_, rfl, ?_⟩
  rw [references_nil]
  exact h.unchanged (.refl c)

theorem mremapInPlace_ends (h : Held i s c owed s1) (hmapping : mapping ∈ c.vmaSnapshot.ranges)
    (hpos : 0 < newSize) (hβ : find mapping.mappingCookie c.bindings = some β)
    (hroom : HasRoom s1 mapping newSize β.backing) :
    Ends (mremapInPlace i c mapping newSize) s1 (InPlace i s c owed s1) := by
  have hlt := (h.good.ordered.valid mapping hmapping).lt
  have hstart := viewAt_mapping h.good hmapping ⟨le_rfl, hlt⟩
  obtain ⟨hmem, hcookie⟩ := mem_of_find hβ
  refine ends_ite (fun _ ↦ Prog.ends_pure (inPlace_failed h _ _)) fun _ ↦ ?_
  refine ends_ite (fun hshrink ↦ ?_) fun hgrow ↦ ends_ite (fun _ ↦ ?_) fun _ ↦ ?_
  · -- the pages behind the new end go
    refine ((quiet_remove h.good (mapping.start + newSize) mapping.stop).ends s1).bind ?_
    rintro ⟨status, _ | next⟩ s2 ⟨hremove, h12⟩
    · exact Prog.ends_pure (inPlace_failed (h.same h12) _ _)
    have hremoved := hremove next rfl
    refine Silent.ends silent_unmapPagesLocked fun t s3 h23 ↦ ?_
    refine ((quiet_publishLocked _ next).ends s3).bind ?_
    rintro _ s4 ⟨rfl, h34⟩
    have h4 := h.same ((h12.trans h23).trans h34)
    refine Prog.ends_pure (.inl ⟨_, rfl, ?_⟩)
    rw [references_nil]
    refine h4.republished rfl rfl rfl hremoved.good
      (fun a x hx ↦ h4.ok.bound a x (hremoved.old hx)) ?_
    rintro k ⟨a, x, hx, hk⟩
    by_cases ha : mapping.start + newSize ≤ a ∧ a < mapping.stop
    · rw [viewAt_mapping h.good hmapping ⟨by omega, ha.2⟩] at hx
      cases hx
      refine ⟨mapping.start, mapping.view mapping.start, ?_, hk⟩
      rw [hremoved.view, if_neg (by omega)]
      exact hstart
    · exact ⟨a, x, by rwa [hremoved.view, if_neg ha], hk⟩
  · -- the range is replaced by a longer one
    refine ((quiet_remove h.good mapping.start mapping.stop).ends s1).bind ?_
    rintro ⟨status, without⟩ s2 ⟨hremove, h12⟩
    have hgood : ∀ t, without = some t → t.Good := fun t ht ↦ (hremove t ht).good
    refine ((quiet_insertInto status hgood
      { mapping with stop := mapping.start + newSize }).ends s2).bind ?_
    rintro ⟨status, _ | next⟩ s3 ⟨hinsert, h23⟩
    · refine Prog.ends_pure ?_
      split_ifs
      · exact inPlace_failed (h.same (h12.trans h23)) _ _
      · exact .inr ⟨rfl, h12.trans h23⟩
    obtain ⟨u, rfl, hins⟩ := hinsert next rfl
    have hremoved := hremove u rfl
    refine ((quiet_publishLocked _ next).ends s3).bind ?_
    rintro _ s4 ⟨rfl, h34⟩
    have hsame := (h12.trans h23).trans h34
    have h4 := h.same hsame
    refine Prog.ends_pure (.inl ⟨_, rfl, ?_⟩)
    rw [references_nil]
    have hgraft := Grafted.of_removed hremoved hins.grafted
    refine h4.republished rfl rfl rfl hins.good (fun a x hx ↦ ?_) ?_
    · cases ha : Vma.contains { mapping with stop := mapping.start + newSize } a with
      | false => exact h4.ok.bound a x (hgraft.old a x hx ha)
      | true =>
        rw [hgraft.placed a ha] at hx
        cases hx
        refine ⟨β, hmem, hcookie, h4.ok.backs_like hmapping hβ ha rfl rfl rfl fun n hn ↦ ?_⟩
        have hroom' := hroom.recounted hsame.recounted n hn
        simp only [Nat.add_sub_cancel_left]
        exact hroom'
    · rintro k ⟨a, x, hx, hk⟩
      by_cases ha : mapping.start ≤ a ∧ a < mapping.stop
      · rw [viewAt_mapping h.good hmapping ha] at hx
        cases hx
        refine ⟨mapping.start, _, hgraft.placed _ (contains_iff.2 ⟨le_rfl, ?_⟩), hk⟩
        exact Nat.lt_add_of_pos_right hpos
      · have hu : viewAt u.ranges a = some x := by rwa [hremoved.view, if_neg ha]
        refine ⟨a, x, ?_, hk⟩
        rwa [hins.view, if_neg fun hcontains ↦ ?_]
        rw [hins.free a hcontains] at hu
        cases hu
  · exact Prog.ends_pure (.inr ⟨rfl, .refl s1⟩)

theorem mremapCommit_ends {flags : MremapFlags} {replacement : Vma} {next : VmaSnapshot}
    (h : Held i s c (if flags.dontUnmap then β.backing ::ₘ owed else owed) s1)
    (hmem : β ∈ c.bindings) (hcookie : replacement.mappingCookie =
      if flags.dontUnmap then c.nextMappingCookie else β.cookie)
    (hgraft : Grafted c.vmaSnapshot replacement next)
    (hnew : ∀ a, replacement.contains a = true → s1.Backs β.backing (replacement.view a)) :
    Ends (mremapCommit i c mapping replacement flags β.backing next) s1 fun r s' ↦
      Leaves i s (references r.1.2.2 + owed) r.2 s' := by
  unfold mremapCommit
  generalize hfixed : movePtesFixedLocked i c.pageTable mapping.start (mapping.stop - mapping.start)
    replacement.start (replacement.stop - replacement.start) = fixed
  refine Silent.ends (silent_ite (silent_movePtesFixedLocked hfixed) silent_movePtesLocked)
    fun r s2 h12 ↦ ?_
  have h2 := h.same h12
  refine ends_ite (fun _ ↦ Prog.ends_pure ?_) fun _ ↦ ?_
  · cases hkeep : flags.dontUnmap with
    | false =>
      rw [hkeep] at h2
      rw [if_neg (by simp), references_nil]
      exact h2.unchanged alike_setTable
    | true =>
      rw [hkeep] at h2
      rw [if_pos rfl, references_one]
      exact h2.unchanged alike_setTable
  · refine ((quiet_publishLocked _ next).ends s2).bind ?_
    rintro _ s3 ⟨rfl, h23⟩
    have h3 := h2.same h23
    have hnew3 : ∀ a, replacement.contains a = true →
        s3.Backs β.backing (replacement.view a) := fun a ha ↦
      (hnew a ha).recounted (h12.trans h23).recounted
    refine Prog.ends_pure ?_
    cases hkeep : flags.dontUnmap with
    | true =>
      rw [hkeep] at h3 hcookie
      exact h3.bound hgraft hcookie hnew3 rfl rfl rfl
    | false =>
      rw [hkeep] at h3 hcookie
      refine h3.pruned rfl rfl hgraft.good h3.ok.nodup (fun a x hx ↦ ?_) h3.ok.cookie
        h3.ok.backing le_rfl (fun γ hγ _ ↦ hγ) rfl
      cases ha : replacement.contains a with
      | false => exact h3.ok.bound a x (hgraft.old a x hx ha)
      | true =>
        rw [hgraft.placed a ha] at hx
        cases hx
        exact ⟨β, hmem, hcookie.symm, hnew3 a ha⟩

theorem mremapMove_ends (h : Held i s c owed s1) (hmapping : mapping ∈ c.vmaSnapshot.ranges)
    (hβ : find mapping.mappingCookie c.bindings = some β)
    (hroom : HasRoom s1 mapping newSize β.backing) (destination : ℕ) (flags : MremapFlags) :
    Ends (mremapMove i c mapping newSize destination flags β.backing) s1 fun r s' ↦
      Leaves i s (references r.1.2.2 + owed) r.2 s' := by
  have hfail : ∀ {s2 : Sys}, Held i s c owed s2 → Leaves i s (references [] + owed) c s2 :=
    fun h2 ↦ by
      rw [references_nil]
      exact h2.unchanged (.refl c)
  obtain ⟨hmem, hcookie⟩ := mem_of_find hβ
  refine ends_ite (fun _ ↦ Prog.ends_pure (hfail h)) fun _ ↦ ?_
  refine ((quiet_mremapSnapshot h.good mapping _ flags).ends s1).bind ?_
  rintro ⟨status, _ | next⟩ s2 ⟨hsnapshot, h12⟩
  · exact Prog.ends_pure (hfail (h.same h12))
  refine Silent.ends (silent_ite (silent_bind silent_malloc fun _ ↦ trivial) trivial)
    fun status s3 h23 ↦ ?_
  have h13 := h12.trans h23
  have h3 := h.same h13
  refine ends_ite (fun _ ↦ Prog.ends_pure (hfail h3)) fun _ ↦ ?_
  have hretain : Ends (Code.when flags.dontUnmap (Backing.retain β.backing)) s3 fun _ s4 ↦
      Held i s c (if flags.dontUnmap then β.backing ::ₘ owed else owed) s4 ∧ s3.Recounted s4 := by
    cases flags.dontUnmap with
    | true => exact h3.retain hmem
    | false => exact Prog.ends_pure ⟨h3, (Sys.Same.refl s3).recounted⟩
  refine hretain.bind fun _ s4 h4 ↦ ?_
  refine mremapCommit_ends h4.1 hmem ?_ (hsnapshot next rfl) fun a ha ↦ ?_
  · rw [hcookie]
  · refine h4.1.ok.backs_like hmapping hβ ha rfl rfl rfl fun n hn ↦ ?_
    have hroom' := hroom.recounted (h13.recounted.trans h4.2) n hn
    simp only [Nat.add_sub_cancel_left]
    exact hroom'

theorem mremapLocked_ends (h : Held i s c owed s1) (oldAddress oldSize : ℕ) (hpos : 0 < newSize)
    (flags : MremapFlags) (hint : ℕ) :
    Ends (mremapLocked i oldAddress oldSize newSize flags hint c) s1 fun r s' ↦
      Leaves i s (references r.1.2.2 + owed) r.2 s' := by
  have hfail : ∀ {s2 : Sys}, Held i s c owed s2 → Leaves i s (references [] + owed) c s2 :=
    fun h2 ↦ by
      rw [references_nil]
      exact h2.unchanged (.refl c)
  unfold mremapLocked
  split
  · exact Prog.ends_pure (hfail h)
  next mapping hlookup =>
  obtain ⟨hmapping, -, -⟩ := (lookup_eq_some h.good).1 hlookup
  refine ends_ite (fun _ ↦ Prog.ends_pure (hfail h)) fun _ ↦ ?_
  split
  · exact Prog.ends_pure (hfail h)
  next β hβ =>
  refine ends_exec rfl (ends_ite (fun _ ↦ Prog.ends_pure (hfail h)) fun _ ↦ ?_)
  refine (mremapFits_ends s1 β.backing mapping newSize).bind fun fits s2 hfits ↦ ?_
  have h2 := h.same hfits.1
  refine ends_ite (fun _ ↦ Prog.ends_pure (hfail h2)) fun hroom ↦ ?_
  have hroom2 := (hfits.2 (by simpa using hroom)).recounted hfits.1.recounted
  refine ends_ite (fun _ ↦ mremapMove_ends h2 hmapping hβ hroom2 _ _) fun _ ↦ ?_
  have htry :
      Ends (if flags.dontUnmap then pure (none, c) else mremapInPlace i c mapping newSize) s2
        (InPlace i s c owed s2) :=
    ends_ite (fun _ ↦ Prog.ends_pure (.inr ⟨rfl, .refl s2⟩)) fun _ ↦
      mremapInPlace_ends h2 hmapping hpos hβ hroom2
  refine htry.bind ?_
  rintro ⟨result, c'⟩ s3 (⟨result, rfl, hleaves⟩ | ⟨heq, h23⟩)
  · exact Prog.ends_pure hleaves
  · cases heq
    have h3 := h2.same h23
    refine ends_ite (fun _ ↦ Prog.ends_pure (hfail h3)) fun _ ↦ ?_
    refine ends_ite (fun _ ↦ Prog.ends_pure (hfail h3)) fun _ ↦ ?_
    exact mremapMove_ends h3 hmapping hβ (hroom2.recounted h23.recounted) _ _

/-! ## Forks and the end of a space -/

end Space

namespace Sys

variable {s : Sys} {c : Space}

theorem SpaceOk.of_empty (hranges : c.vmaSnapshot = .empty) (hbindings : c.bindings = [])
    (hnext : 0 < c.nextMappingCookie) : s.SpaceOk c where
  good := hranges ▸ VmaSnapshot.empty_good
  nodup := by rw [hbindings]; exact List.nodup_nil
  bound := by
    intro a x hx
    rw [hranges] at hx
    cases hx
  used := by rw [hbindings]; exact List.forall_mem_nil _
  cookie := by rw [hbindings]; exact List.forall_mem_nil _
  next := hnext
  backing := by rw [hbindings]; exact List.forall_mem_nil _

theorem SpaceOk.new : s.SpaceOk .new := .of_empty rfl rfl Nat.one_pos

theorem SpaceOk.closed (h : s.SpaceOk c) : s.SpaceOk c.closed := .of_empty rfl rfl h.next

end Sys

namespace Space

variable {i : SpaceId} {s s1 : Sys} {c : Space} {owed : Multiset BackingId}

/-- `minimm_space_fork`: the child has the mappings of the parent, and bindings of its own. -/
theorem forkLocked_ends (h : Held i s c owed s1) :
    Ends (forkLocked i c) s1 fun r s' ↦
      Leaves i s (references r.1.2.bindings + owed) r.2 s' ∧ s'.SpaceOk r.1.2 := by
  have hfail : ∀ {s2 : Sys}, Held i s c owed s2 →
      Leaves i s (references Space.new.bindings + owed) c s2 ∧ s2.SpaceOk .new := fun h2 ↦
    ⟨(references_nil owed).symm ▸ h2.unchanged (.refl c), .new⟩
  refine ((quiet_clone h.good).ends s1).bind ?_
  rintro ⟨status, _ | snapshot⟩ s2 ⟨hclone, h12⟩
  · exact Prog.ends_pure (hfail (h.same h12))
  obtain ⟨hgood, hranges⟩ := hclone snapshot rfl
  have h2 := h.same h12
  have hnone : s2.Tidy s.space (references [] + owed) := (references_nil owed).symm ▸ h2.tidy
  refine (listCloneFrom_ends hnone (h2.kept.nextSpace ▸ h.lt) fun β hβ ↦ h.space ▸ hβ).bind ?_
  rintro ⟨status, bindings⟩ s3 ⟨hkept, ⟨hbad, htidy⟩ | ⟨heq, htidy⟩⟩
  · refine ends_ite (fun _ ↦ Prog.ends_pure (hfail ⟨h.space, h.lt, h2.kept.trans hkept, htidy⟩))
      fun hok ↦ absurd hbad hok
  cases heq
  refine ends_ite (fun hbad ↦ absurd rfl hbad) fun _ ↦ ?_
  have h3 : Held i s c (references c.bindings + owed) s3 :=
    ⟨h.space, h.lt, h2.kept.trans hkept, htidy⟩
  generalize htables : forkTables i c = tables
  refine Silent.ends (silent_forkTables htables) fun r s4 h34 ↦ Prog.ends_pure ?_
  have h4 := h3.same h34
  refine ⟨h4.unchanged alike_setTable, ?_⟩
  have hok := h4.ok
  have hbound := hok.bound
  have hused := hok.used
  rw [← hranges] at hbound hused
  exact ⟨hgood, hok.nodup, hbound, hused, hok.cookie, hok.next, hok.backing⟩

theorem destroyLocked_ends {sp : SpaceId → Space} (hsp : s.space = sp)
    (h : s.Tidy (Function.update sp i c.closed) (references c.bindings + owed)) :
    Ends (destroyLocked i c) s fun _ s' ↦ s'.Tidy s'.space owed ∧
      s'.space = Function.update sp i c.closed ∧ s'.nextSpace = s.nextSpace ∧
      s'.noteInfo = s.noteInfo ∧ s'.nextNote = s.nextNote := by
  subst hsp
  unfold destroyLocked
  generalize htable : c.pageTable.destroy = table
  refine Silent.ends Tlb.silent_destroy fun _ s1 h1 ↦ ?_
  refine Silent.ends (PageTable.silent_destroy htable) fun _ s2 h2 ↦ ?_
  refine (listDestroy_ends (h.same (h1.trans h2))).bind fun _ s3 h3 ↦ ?_
  refine Prog.ends_step fun _ s' hexec ↦ ?_
  cases hexec
  have hkept := (h1.trans h2).kept.trans h3.1
  refine ⟨?_, by rw [hkept.space], hkept.nextSpace, hkept.noteInfo, hkept.nextNote⟩
  rw [hkept.space]
  exact h3.2.unlock _ _

end Space

end MiniMM
