import MiniMM.Binding.Counts

/-!
# Changing the mappings of a space

The calls that change mappings build a snapshot, publish it and bring the bindings into line with
it. What the snapshot shows at each address decides which bindings are right.
-/

namespace MiniMM

open Vma Code

/-! ## New snapshots -/

namespace VmaSnapshot

variable {s t u : VmaSnapshot} {v : Vma} {start stop : ℕ} {protection : Prot}

/-- `t` is `s` with one more range where nothing was mapped. -/
structure Inserted (s : VmaSnapshot) (v : Vma) (t : VmaSnapshot) : Prop where
  good : t.Good
  valid : v.Valid
  view : ∀ a, viewAt t.ranges a = if v.contains a then some (v.view a) else viewAt s.ranges a
  free : ∀ a, v.contains a = true → viewAt s.ranges a = none

/-- `t` is `s` without an interval. -/
structure Removed (s : VmaSnapshot) (start stop : ℕ) (t : VmaSnapshot) : Prop where
  good : t.Good
  view : ∀ a, viewAt t.ranges a = if start ≤ a ∧ a < stop then none else viewAt s.ranges a

/-- `t` shows the new range, and elsewhere nothing that `s` did not show. -/
structure Grafted (s : VmaSnapshot) (v : Vma) (t : VmaSnapshot) : Prop where
  good : t.Good
  placed : ∀ a, v.contains a = true → viewAt t.ranges a = some (v.view a)
  old : ∀ a x, viewAt t.ranges a = some x → v.contains a = false → viewAt s.ranges a = some x

/-- What is still mapped is mapped as it was, up to its protection. -/
structure Protected (s t : VmaSnapshot) : Prop where
  good : t.Good
  view : ∀ a, ∃ f : View → Prot,
    viewAt t.ranges a = (viewAt s.ranges a).map fun x ↦ { x with prot := f x }

theorem empty_good : VmaSnapshot.empty.Good := ⟨Ordered.nil, .nil, rfl⟩

theorem Inserted.grafted (h : Inserted s v t) : Grafted s v t where
  good := h.good
  placed := fun a ha ↦ by rw [h.view, if_pos ha]
  old := fun a x hx ha ↦ by rwa [h.view, if_neg (by simp [ha])] at hx

theorem Removed.old (h : Removed s start stop t) {a : ℕ} {x : View}
    (hx : viewAt t.ranges a = some x) : viewAt s.ranges a = some x := by
  rw [h.view] at hx
  split_ifs at hx
  exact hx

theorem Grafted.of_removed (h : Removed s start stop t) (hv : Grafted t v u) : Grafted s v u where
  good := hv.good
  placed := hv.placed
  old := fun a x hx ha ↦ h.old (hv.old a x hx ha)

theorem quiet_insert (h : s.Good) (v : Vma) :
    Quiet (s.insert v) fun r ↦ ∀ t, r.2 = some t → Inserted s v t := by
  refine (Allocates.quiet (Mallocs.allocates (insert_outcome h v))).mono fun r hr t ht ↦ ?_
  rcases hr with ⟨-, rfl⟩ | ⟨-, -, rfl⟩ | ⟨hv, hfree, hout⟩
  · cases ht
  · cases ht
  · cases hout with
    | outOfMemory => cases ht
    | noSpace => cases ht
    | ok hgood _ hview =>
      cases ht
      have hvalid := isValid_iff.1 hv
      refine ⟨hgood, hvalid, hview, fun a ha ↦ ?_⟩
      by_contra hne
      obtain ⟨x, hx⟩ := Option.ne_none_iff_exists'.1 hne
      obtain ⟨w, hw, hwa, -⟩ := h.ordered.viewAt_iff.1 hx
      rw [contains_iff] at ha hwa
      exact hfree ((overlaps_iff h.ordered hvalid).1 ⟨w, hw, by omega, by omega⟩)

theorem quiet_remove (h : s.Good) (start stop : ℕ) :
    Quiet (s.remove start stop) fun r ↦ ∀ t, r.2 = some t → Removed s start stop t := by
  refine (Allocates.quiet (Mallocs.allocates (remove_outcome h start stop))).mono fun r hr t ht ↦ ?_
  rcases hr with ⟨-, rfl⟩ | ⟨-, hout⟩
  · cases ht
  · cases hout with
    | outOfMemory => cases ht
    | noSpace => cases ht
    | ok hgood _ hview =>
      cases ht
      exact ⟨hgood, hview⟩

theorem quiet_protect (h : s.Good) (start stop : ℕ) (protection : Prot) :
    Quiet (s.protect start stop protection) fun r ↦ ∀ t, r.2 = some t → Protected s t := by
  refine (Allocates.quiet (Mallocs.allocates (protect_outcome h start stop protection))).mono
    fun r hr t ht ↦ ?_
  rcases hr with ⟨-, rfl⟩ | ⟨-, -, rfl | rfl⟩ | ⟨-, -, hout⟩
  · cases ht
  · cases ht
  · cases ht
  · cases hout with
    | outOfMemory => cases ht
    | noSpace => cases ht
    | ok hgood _ hview =>
      cases ht
      refine ⟨hgood, fun a ↦ ⟨fun x ↦ if start ≤ a ∧ a < stop then protection else x.prot, ?_⟩⟩
      rw [hview]
      refine congrArg (fun f ↦ (viewAt s.ranges a).map f) (funext fun x ↦ ?_)
      split_ifs <;> rfl

theorem quiet_clone (h : s.Good) :
    Quiet s.clone fun r ↦ ∀ t, r.2 = some t → t.Good ∧ t.ranges = s.ranges := by
  refine (Allocates.quiet (Mallocs.allocates (clone_spec h))).mono fun r hr t ht ↦ ?_
  rcases hr with ⟨rfl, -⟩ | ⟨u, rfl, hgood, -, hranges⟩
  · cases ht
  · cases ht
    exact ⟨hgood, by rw [hranges, coalesceRanges_eq h.coalesced]⟩

end VmaSnapshot

/-! ## Placement -/

namespace Space

open VmaSnapshot

variable {c : Space} {v : Vma}

theorem quiet_publishLocked (c : Space) (next : VmaSnapshot) :
    Quiet (c.publishLocked next) fun c' ↦ c' = { c with vmaSnapshot := next } :=
  quiet_seq silent_malloc fun _ ↦ rfl

theorem quiet_replaceRange {s : VmaSnapshot} (h : s.Good) (v : Vma) :
    Quiet (replaceRange s v) fun r ↦ ∀ t, r.2 = some t → Grafted s v t := by
  refine (quiet_remove h v.start v.stop).bind fun r hr ↦ ?_
  obtain ⟨status, _ | u⟩ := r
  · exact fun t ht ↦ nomatch ht
  · have hremoved := hr u rfl
    exact (quiet_insert hremoved.good v).mono fun r hr t ht ↦ .of_removed hremoved (hr t ht).grafted

theorem quiet_placeInGap (h : c.vmaSnapshot.Good) (lower length : ℕ) (vmaAt : ℕ → Vma) :
    Quiet (c.placeInGap lower length vmaAt) fun r ↦
      ∀ t, r.2.2 = some t → Inserted c.vmaSnapshot (vmaAt r.2.1) t := by
  refine quiet_ite (fun t ht ↦ nomatch ht) ?_
  exact (quiet_insert h _).bind fun r hr ↦ hr

theorem quiet_placeNear (h : c.vmaSnapshot.Good) (hint length : ℕ) (vmaAt : ℕ → Vma) :
    Quiet (c.placeNear hint length vmaAt) fun r ↦
      ∀ t, r.2.2 = some t → Inserted c.vmaSnapshot (vmaAt r.2.1) t :=
  (quiet_insert h _).bind fun _ hr ↦ quiet_ite (quiet_placeInGap h _ _ _) hr

theorem quiet_mmapPlace (h : c.vmaSnapshot.Good) (args : MmapArgs) (length : ℕ) (maximum : Prot) :
    Quiet (c.mmapPlace args length maximum) fun r ↦ ∀ t, r.2.2 = some t →
      Grafted c.vmaSnapshot
        (mappingMakeVma args r.2.1 (r.2.1 + length) maximum c.nextMappingCookie) t := by
  refine quiet_ite (quiet_ite (fun t ht ↦ nomatch ht) ?_) (quiet_ite ?_ ?_)
  · refine Prog.Yields.bind (P := fun r ↦ ∀ t, r.2 = some t → Grafted c.vmaSnapshot
      (mappingMakeVma args args.addressHint (args.addressHint + length) maximum
        c.nextMappingCookie) t) (quiet_ite ?_ (quiet_replaceRange h _)) ?_
    · exact (quiet_insert h _).mono fun r hr t ht ↦ (hr t ht).grafted
    · rintro ⟨status, next⟩ hr
      exact hr
  · exact (quiet_placeNear h _ _ _).mono fun r hr t ht ↦ (hr t ht).grafted
  · exact (quiet_placeInGap h _ _ _).mono fun r hr t ht ↦ (hr t ht).grafted

theorem quiet_insertInto (status : Status) {base : Option VmaSnapshot}
    (h : ∀ t, base = some t → t.Good) (v : Vma) :
    Quiet (insertInto status base v) fun r ↦
      ∀ t, r.2 = some t → ∃ u, base = some u ∧ Inserted u v t := by
  cases base with
  | none => exact fun t ht ↦ nomatch ht
  | some u => exact (quiet_insert (h u rfl) v).mono fun r hr t ht ↦ ⟨u, rfl, hr t ht⟩

theorem quiet_mremapSnapshot (h : c.vmaSnapshot.Good) (mapping replacement : Vma)
    (flags : MremapFlags) :
    Quiet (c.mremapSnapshot mapping replacement flags) fun r ↦
      ∀ t, r.2 = some t → Grafted c.vmaSnapshot replacement t := by
  refine Prog.Yields.bind (P := fun r ↦ ∀ u, r.2 = some u → u.Good ∧
    ∀ t, Grafted u replacement t → Grafted c.vmaSnapshot replacement t) (quiet_ite ?_ ?_) ?_
  · intro u hu
    cases hu
    exact ⟨h, fun t ht ↦ ht⟩
  · exact (quiet_remove h _ _).mono fun r hr u hu ↦
      ⟨(hr u hu).good, fun t ht ↦ .of_removed (hr u hu) ht⟩
  · rintro ⟨status, _ | u⟩ hu
    · exact fun t ht ↦ nomatch ht
    · obtain ⟨hgood, hgraft⟩ := hu u rfl
      refine quiet_ite ?_ ?_
      · exact (quiet_replaceRange hgood _).mono fun r hr t ht ↦ hgraft t (hr t ht)
      · exact (quiet_insert hgood _).mono fun r hr t ht ↦ hgraft t (hr t ht).grafted

end Space

/-! ## Bindings in line with a snapshot -/

namespace Sys

open VmaSnapshot

variable {s s' : Sys} {c c' : Space} {b : BackingId} {x : View} {v : Vma} {t : VmaSnapshot}

theorem Backs.recounted (h : s.Backs b x) (hs : Recounted s s') : s'.Backs b x := by
  refine ⟨by rw [hs.backingInfo]; exact h.shared, fun n hn ↦ ?_, fun n hn ↦ ?_⟩ <;>
    rw [hs.backingInfo] at hn
  · rw [hs.noteInfo]
    exact h.rights n hn
  · rw [hs.noteSize]
    exact h.offset n hn

theorem Backs.congr (h : s.Backs b x) {y : View} (hshared : y.shared = x.shared)
    (hmax : y.maxProt = x.maxProt) (hoffset : y.noteOffset = x.noteOffset) : s.Backs b y :=
  ⟨hshared ▸ h.shared, fun n hn ↦ hshared ▸ hmax ▸ h.rights n hn,
    fun n hn ↦ hoffset ▸ h.offset n hn⟩

theorem SpaceOk.find (h : s.SpaceOk c) {β : Binding} {k : ℕ}
    (hβ : Binding.find k c.bindings = some β) {a : ℕ}
    (hx : viewAt c.vmaSnapshot.ranges a = some x) (hk : x.mappingCookie = k) :
    s.Backs β.backing x := by
  obtain ⟨γ, hγ, hcookie, hbacks⟩ := h.bound a x hx
  have hfind := Binding.find_eq h.nodup hγ
  rw [hcookie, hk, hβ] at hfind
  cases hfind
  exact hbacks

theorem SpaceOk.reaches (h : s.SpaceOk c) {mapping : Vma}
    (hmapping : mapping ∈ c.vmaSnapshot.ranges)
    {β : Binding} (hβ : Binding.find mapping.mappingCookie c.bindings = some β) {n : NoteId}
    (hn : (s.backingInfo β.backing).note = some n) :
    mapping.noteOffset + (mapping.stop - mapping.start) ≤ s.noteSize n := by
  have hlt := (h.good.ordered.valid mapping hmapping).lt
  have hview : viewAt c.vmaSnapshot.ranges (mapping.stop - 1) =
      some (mapping.view (mapping.stop - 1)) :=
    h.good.ordered.viewAt_iff.2 ⟨mapping, hmapping, contains_iff.2 (by omega), rfl⟩
  have hoffset := (h.find hβ hview rfl).offset n hn
  simp only [Vma.view] at hoffset
  omega

theorem SpaceOk.backs_like (h : s.SpaceOk c) {mapping : Vma}
    (hmapping : mapping ∈ c.vmaSnapshot.ranges) {β : Binding}
    (hβ : Binding.find mapping.mappingCookie c.bindings = some β) {a : ℕ}
    (ha : v.contains a = true) (hshared : v.shared = mapping.shared)
    (hmax : v.maxProt = mapping.maxProt) (hoffset : v.noteOffset = mapping.noteOffset)
    (hfits : ∀ n, (s.backingInfo β.backing).note = some n →
      mapping.noteOffset + (v.stop - v.start) ≤ s.noteSize n) :
    s.Backs β.backing (v.view a) := by
  have hlt := (h.good.ordered.valid mapping hmapping).lt
  have hview : viewAt c.vmaSnapshot.ranges mapping.start = some (mapping.view mapping.start) :=
    h.good.ordered.viewAt_iff.2 ⟨mapping, hmapping, contains_iff.2 ⟨le_rfl, hlt⟩, rfl⟩
  have hbacks := h.find hβ hview rfl
  refine ⟨hbacks.shared.trans hshared.symm, fun n hn ↦ ?_, fun n hn ↦ ?_⟩
  · have hrights := hbacks.rights n hn
    simp only [Vma.view] at hrights ⊢
    rwa [hshared, hmax]
  · have hroom := hfits n hn
    rw [contains_iff] at ha
    simp only [Vma.view, hoffset]
    omega

theorem SpaceOk.prune {bindings : List Binding} (hgood : c.vmaSnapshot.Good)
    (hnodup : (bindings.map Binding.cookie).Nodup)
    (hbound : ∀ a x, viewAt c.vmaSnapshot.ranges a = some x →
      ∃ β ∈ bindings, β.cookie = x.mappingCookie ∧ s.Backs β.backing x)
    (hcookie : ∀ β ∈ bindings, 0 < β.cookie ∧ β.cookie < c.nextMappingCookie)
    (hnext : 0 < c.nextMappingCookie) (hbacking : ∀ β ∈ bindings, β.backing < s.nextBacking)
    (hc : c.bindings = (Binding.prune bindings c.vmaSnapshot).1) : s.SpaceOk c := by
  have hmem : ∀ β, β ∈ c.bindings ↔
      β ∈ bindings ∧ c.vmaSnapshot.containsCookie β.cookie = true := fun β ↦ by
    rw [hc, Binding.prune, List.mem_filter]
  refine ⟨hgood, ?_, fun a x hx ↦ ?_, fun β hβ ↦ ?_, fun β hβ ↦ hcookie β ((hmem β).1 hβ).1, hnext,
    fun β hβ ↦ hbacking β ((hmem β).1 hβ).1⟩
  · rw [hc, Binding.prune]
    exact hnodup.sublist (List.filter_sublist.map _)
  · obtain ⟨β, hβ, hk, hbacks⟩ := hbound a x hx
    refine ⟨β, (hmem β).2 ⟨hβ, ?_⟩, hk, hbacks⟩
    rw [Space.containsCookie_iff hgood]
    exact ⟨(hcookie β hβ).1.ne', a, x, hx, hk.symm⟩
  · exact ((Space.containsCookie_iff hgood).1 ((hmem β).1 hβ).2).2

theorem SpaceOk.fresh (h : s.SpaceOk c) (b : BackingId) :
    ((⟨b, c.nextMappingCookie⟩ :: c.bindings).map Binding.cookie).Nodup := by
  refine List.nodup_cons.2 ⟨fun hmem ↦ ?_, h.nodup⟩
  obtain ⟨β, hβ, heq⟩ := List.mem_map.1 hmem
  exact lt_irrefl _ (heq ▸ (h.cookie β hβ).2)

theorem SpaceOk.fresh_cookie (h : s.SpaceOk c) (b : BackingId) :
    ∀ β ∈ (⟨b, c.nextMappingCookie⟩ :: c.bindings : List Binding),
      0 < β.cookie ∧ β.cookie < c.nextMappingCookie + 1 := by
  refine List.forall_mem_cons.2 ⟨⟨h.next, Nat.lt_succ_self _⟩, fun β hβ ↦ ?_⟩
  exact ⟨(h.cookie β hβ).1, (h.cookie β hβ).2.trans (Nat.lt_succ_self _)⟩

/-- A new mapping with a new cookie is bound, and what was there before still is. -/
theorem SpaceOk.fresh_bound (h : s.SpaceOk c) (hv : Grafted c.vmaSnapshot v t)
    (hcookie : v.mappingCookie = c.nextMappingCookie)
    (hnew : ∀ a, v.contains a = true → s.Backs b (v.view a)) {a : ℕ} {x : View}
    (hx : viewAt t.ranges a = some x) :
    ∃ β ∈ (⟨b, c.nextMappingCookie⟩ :: c.bindings : List Binding),
      β.cookie = x.mappingCookie ∧ s.Backs β.backing x := by
  cases ha : v.contains a with
  | true =>
    rw [hv.placed a ha] at hx
    cases hx
    exact ⟨_, List.mem_cons_self, hcookie.symm, hnew a ha⟩
  | false =>
    obtain ⟨β, hβ, hk, hbacks⟩ := h.bound a x (hv.old a x hx ha)
    exact ⟨β, List.mem_cons_of_mem _ hβ, hk, hbacks⟩

end Sys

end MiniMM
