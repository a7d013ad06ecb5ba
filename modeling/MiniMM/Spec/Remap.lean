import MiniMM.Spec.Move
import MiniMM.Vma.Gap

/-!
# Specification of `minimm_mremap`

Shrinking and growing in place, and moves to a free or a fixed destination, leave one and the same
kind of space: the entries of the old range are at the new one.
-/

namespace MiniMM

open Handle Vma PageTable VmaSnapshot

namespace VmaSnapshot

variable {s t u : VmaSnapshot} {mapping v : Vma}

/-- `t` is `s` with the mapping `v` for `mapping`, which stays only if it is to be kept. -/
structure Shifted (s : VmaSnapshot) (mapping v : Vma) (keep : Bool) (t : VmaSnapshot) : Prop where
  good : t.Good
  valid : v.Valid
  view : ∀ a, viewAt t.ranges a = if v.contains a then some (v.view a)
    else if mapping.contains a then if keep = true then viewAt s.ranges a else none
    else viewAt s.ranges a

theorem Shifted.of_laid (h : Laid s v t) : Shifted s mapping v true t := by
  refine ⟨h.good, h.valid, fun a ↦ ?_⟩
  rw [h.view]
  split_ifs <;> first | rfl | simp_all

theorem Shifted.of_removed (h : Removed s mapping.start mapping.stop u) (hv : Laid u v t) :
    Shifted s mapping v false t := by
  refine ⟨hv.good, hv.valid, fun a ↦ ?_⟩
  rw [hv.view, h.view]
  simp only [contains_iff, Bool.false_eq_true, if_false]

theorem mremapSnapshot_built {c : Space} (h : c.vmaSnapshot.Good) (mapping replacement : Vma)
    (flags : MremapFlags) :
    (c.mremapSnapshot mapping replacement flags).Mallocs (fun _ ↦ True)
      (Built (Shifted c.vmaSnapshot mapping replacement flags.dontUnmap)) := by
  have hbase : Code.Mallocs (fun _ ↦ True)
      (if flags.dontUnmap then pure (.ok, some c.vmaSnapshot)
        else c.vmaSnapshot.remove mapping.start mapping.stop)
      (Built fun u ↦ u.Good ∧ ∀ t, Laid u replacement t →
        Shifted c.vmaSnapshot mapping replacement flags.dontUnmap t) := by
    split_ifs with hkeep
    · exact .inl ⟨rfl, _, rfl, h, fun t ht ↦ hkeep ▸ .of_laid ht⟩
    · refine (remove_built h _ _).mono fun r hr ↦ hr.imp_left ?_
      rintro ⟨hok, u, hu, hremoved, -⟩
      refine ⟨hok, u, hu, hremoved.good, fun t ht ↦ ?_⟩
      rw [Bool.eq_false_of_not_eq_true hkeep]
      exact .of_removed hremoved ht
  refine hbase.bind ?_
  rintro ⟨status, base⟩ (⟨-, base, rfl, hgood, hshift⟩ | ⟨hbad, rfl⟩)
  swap
  · exact .inr ⟨hbad, rfl⟩
  have hmono : ∀ {P : VmaSnapshot → Prop} {r}, Built P r → (∀ t, P t → Laid base replacement t) →
      Built (Shifted c.vmaSnapshot mapping replacement flags.dontUnmap) r := by
    intro P r hr hP
    refine hr.imp_left ?_
    rintro ⟨hok, t, ht, hp⟩
    exact ⟨hok, t, ht, hshift t (hP t hp)⟩
  dsimp only
  split_ifs
  · exact (replaceRange_built hgood _).mono fun r hr ↦ hmono hr fun _ ht ↦ ht
  · exact (insert_built hgood _).mono fun r hr ↦ hmono hr fun _ ht ↦ ht.laid

end VmaSnapshot

namespace Space

variable {μ : Mode} {i : SpaceId} {bad : Set ℕ} {c c' : Space} {t : PageTable} {g : ℕ → Option Pte}
  {a d n m : ℕ} {mapping v : Vma} {next : VmaSnapshot} {s : Sys} {b : BackingId} {keep : Bool}

/-- The mapping `v` has the attributes of `mapping`. -/
structure SameKind (mapping v : Vma) : Prop where
  prot : v.prot = mapping.prot
  maxProt : v.maxProt = mapping.maxProt
  shared : v.shared = mapping.shared
  noteOffset : v.noteOffset = mapping.noteOffset

/-- The backing that a cookie is bound to. -/
def backingOf (c : Space) (cookie : ℕ) : Option BackingId :=
  (Binding.find cookie c.bindings).map Binding.backing

/-- What `minimm_mremap` leaves of a space. -/
structure Remapped (mapping v : Vma) (keep : Bool) (c c' : Space) : Prop where
  backing : c'.backingOf v.mappingCookie = c.backingOf mapping.mappingCookie
  snapshot : Shifted c.vmaSnapshot mapping v keep c'.vmaSnapshot
  entries : ∀ p, c'.pageTable.pte p = moveResult (mapping.start / pageSize)
    ((mapping.stop - mapping.start) / pageSize) (v.start / pageSize)
    ((v.stop - v.start) / pageSize) c.pageTable.pte p
  rest : { c with
    pageTable := c'.pageTable, vmaSnapshot := c'.vmaSnapshot, bindings := c'.bindings
    nextMappingCookie := if keep then c.nextMappingCookie + 1 else c.nextMappingCookie } = c'

theorem Wf.shifted (h : c.Wf) (hmapping : mapping ∈ c.vmaSnapshot.ranges) (hm : Spans mapping a n)
    (hv : Spans v d m) (hlike : SameKind mapping v)
      (hnext : Shifted c.vmaSnapshot mapping v keep next)
    (ht : t.Has (moveResult a n d m c.pageTable.pte)) :
    Fits { c with vmaSnapshot := next } t.pte := by
  refine (fits_iff (c := { c with vmaSnapshot := next }) hnext.good).2 fun p pte hp ↦ ?_
  rw [ht.pte, moveResult] at hp
  rw [hnext.view]
  simp only [hv.contains, hm.contains]
  split_ifs at hp ⊢ with hdest hlt hsrc
  · obtain ⟨x, hx, hok⟩ := h.view hp
    have hin : mapping.contains ((a + (p - d)) * pageSize) = true := hm.contains.2 (by omega)
    cases hx.symm.trans (h.snapshot.ordered.viewAt_iff.2 ⟨mapping, hmapping, hin, rfl⟩)
    exact ⟨_, rfl, hok.congr hlike.prot hlike.maxProt hlike.shared⟩
  · exact h.view hp

theorem viewBound_shifted {bindings : List Binding}
    (hnext : Shifted c.vmaSnapshot mapping v keep next)
    (hv : ∀ a, ViewBound s bindings (v.view a))
    (hold : ∀ a x, viewAt c.vmaSnapshot.ranges a = some x → ViewBound s bindings x)
      {a : ℕ} {x : View}
    (hx : viewAt next.ranges a = some x) : ViewBound s bindings x := by
  rw [hnext.view] at hx
  split_ifs at hx
  · cases hx
    exact hv a
  · exact hold a x hx
  · exact hold a x hx

theorem Sound.shifted {bindings : List Binding} {cookie : ℕ} (h : c.Wf)
    (hmapping : mapping ∈ c.vmaSnapshot.ranges) (hm : Spans mapping a n)
    (hv : Spans v d m) (hlike : SameKind mapping v)
    (hnext : Shifted c.vmaSnapshot mapping v keep next)
    (ht : t.Has (moveResult a n d m c.pageTable.pte)) (htlb : Tlb.All (Agrees t) i s)
    (hlocked : t.LockedResident μ s bad) (hbound : ∀ a, ViewBound s bindings (v.view a))
    (hold : ∀ a x, viewAt c.vmaSnapshot.ranges a = some x → ViewBound s bindings x)
    (hcookies : ∀ β ∈ bindings, β.cookie < cookie) (hcookie : cookie ≠ 0) :
    Sound μ i bad { c with
      pageTable := t
      vmaSnapshot := next
      bindings := (Binding.prune bindings next).1
      nextMappingCookie := cookie } s :=
  ⟨⟨hnext.good, ht.good, fun β hβ ↦ hcookies β (Binding.mem_prune hβ), hcookie, h.base,
    h.shifted hmapping hm hv hlike hnext ht⟩,
    bound_prune hnext.good (fun _ _ hx ↦ viewBound_shifted hnext hbound hold hx) rfl rfl, htlb,
    hlocked⟩

theorem find_shifted {bindings : List Binding} (hnext : Shifted c.vmaSnapshot mapping v keep next)
    (hcookie : v.mappingCookie ≠ 0) :
    Binding.find v.mappingCookie (Binding.prune bindings next).1 =
      Binding.find v.mappingCookie bindings := by
  have hview := hnext.view v.start
  rw [if_pos (contains_iff.2 ⟨le_rfl, hnext.valid.lt⟩)] at hview
  exact Binding.find_prune ((containsCookie_iff hnext.good).2 ⟨hcookie, v.start, _, hview, rfl⟩)

theorem Bound.like (h : c.Bound s) (hmapping : mapping ∈ c.vmaSnapshot.ranges)
    (hcookie : v.mappingCookie = mapping.mappingCookie) (hshared : v.shared = mapping.shared)
    (a : ℕ) : ViewBound s c.bindings (v.view a) := by
  have hb := h mapping hmapping
  rw [← hcookie, ← hshared] at hb
  exact hb

theorem Bound.backingIs (h : c.Bound s) (hmapping : mapping ∈ c.vmaSnapshot.ranges)
    {binding : Binding} (hbinding : Binding.find mapping.mappingCookie c.bindings = some binding) :
    BackingIs binding.backing (s.backingInfo binding.backing) s ∧
      (s.backingInfo binding.backing).kind.shared = mapping.shared := by
  obtain ⟨-, β, hβ, hlt, hkind⟩ := h mapping hmapping
  cases hβ.symm.trans hbinding
  exact ⟨⟨hlt, rfl⟩, hkind⟩

theorem moveEntries_spec {flags : MremapFlags} (h : c.Wf) (hm : Spans mapping a n)
    (hv : Spans v d m) (hmvalid : mapping.Valid) (hvvalid : v.Valid) (hapart : Apart a n d m)
    (hfree : flags.fixed = false → n ≤ m ∧ ∀ p, d ≤ p ∧ p < d + m → c.pageTable.pte p = none)
    {p : Code (Status × PageTable)}
    (hp : (if flags.fixed then movePtesFixedLocked i c.pageTable mapping.start
        (mapping.stop - mapping.start) v.start (v.stop - v.start)
      else movePtesLocked i c.pageTable mapping.start v.start (mapping.stop - mapping.start)) = p) :
    Triple μ 0 ({lock (.space i)} + c.pageTable.sites)
      (fun s ↦ Tlb.All (Agrees c.pageTable) i s ∧ c.pageTable.LockedResident μ s ∅) p
      (fun r ↦ {lock (.space i)} + r.2.sites)
      fun r s ↦ Tlb.All (Agrees r.2) i s ∧ r.2.LockedResident μ s ∅ ∧
        (r.1 = .ok ∧ r.2.Has (moveResult a n d m c.pageTable.pte) ∨
          r.1 ≠ .ok ∧ r.2.Has c.pageTable.pte) := by
  have ha := hmvalid.limit
  have hd := hvvalid.limit
  rw [hm.stop] at ha
  rw [hv.stop] at hd
  rw [hm.start, hm.stop, hv.start, hv.stop, Nat.add_sub_cancel_left, Nat.add_sub_cancel_left] at hp
  split_ifs at hp with hfixed
  · exact movePtesFixedLocked_spec h.has (fun p pte ↦ h.settled) hapart ha hd hp
  · obtain ⟨hnm, hnone⟩ := hfree (Bool.eq_false_of_not_eq_true hfixed)
    rw [← hp]
    refine movePtesLocked_spec h.has (fun p pte ↦ h.settled) hnone hapart hnm ha ?_
    exact (Nat.add_le_add_left (Nat.mul_le_mul_right _ hnm) _).trans hd

/-- The result of a call that moves or resizes a mapping. -/
def RemapOutcome (mapping : Vma) (c : Space) (newSize : ℕ) (keep : Bool)
    (r : RemapResult × Space) : Prop :=
  r.1.1 = .ok ∧ (∃ v, Remapped mapping v keep c r.2 ∧ SameKind mapping v ∧ v.start = r.1.2.1 ∧
      v.stop = r.1.2.1 + newSize) ∨
    r.1.1 ≠ .ok ∧ Unchanged c r.2

theorem mremapCommit_spec {flags : MremapFlags} {binding : Binding} (hwf : c.Wf)
    (hmapping : mapping ∈ c.vmaSnapshot.ranges) (hm : Spans mapping a n) (hv : Spans v d m)
    (hlike : SameKind mapping v)
    (hcookie : v.mappingCookie = if flags.dontUnmap then c.nextMappingCookie
      else mapping.mappingCookie)
    (hbinding : Binding.find mapping.mappingCookie c.bindings = some binding)
    (hnext : Shifted c.vmaSnapshot mapping v flags.dontUnmap next) (hapart : Apart a n d m)
    (hfree : flags.fixed = false → n ≤ m ∧ ∀ p, d ≤ p ∧ p < d + m → c.pageTable.pte p = none)
    {p : Code (RemapResult × Space)}
    (hp : mremapCommit i c mapping v flags binding.backing next = p) :
    Triple μ 0 ({lock (.space i)} + c.sites +
        if flags.dontUnmap = true then {backing binding.backing} else 0) (Sound μ i ∅ c) p
      (fun r ↦ {lock (.space i)} + r.2.sites + bindingSites r.1.2.2)
      fun r s ↦ Sound μ i ∅ r.2 s ∧ RemapOutcome mapping c (m * pageSize) flags.dontUnmap r := by
  intro s x w hK hat h
  rw [← hp]
  unfold mremapCommit
  generalize hmove : (if flags.fixed then movePtesFixedLocked i c.pageTable mapping.start
      (mapping.stop - mapping.start) v.start (v.stop - v.start)
    else movePtesLocked i c.pageTable mapping.start v.start (mapping.stop - mapping.start)) = move
  have hmvalid := hwf.snapshot.ordered.valid mapping hmapping
  refine (moveEntries_spec hwf hm hv hmvalid hnext.valid hapart hfree hmove).seq
    (F := bindingSites c.bindings + if flags.dontUnmap = true then {backing binding.backing} else 0)
    hat ?_ zero_le ⟨h.tlb, h.locked⟩ ?_
  · rw [sites_eq]
    ac_rfl
  rintro ⟨status, t⟩ w1 hat1 hk1 ⟨htlb, hlocked, hmoved⟩
  dsimp only at hat1 htlb hlocked hmoved ⊢
  have hbound := h.bound.keeps hk1
  rcases hmoved with ⟨rfl, hhas⟩ | ⟨hbad, hhas⟩
  swap
  · rw [if_pos hbad]
    refine ⟨hat1.congr ?_, .same hwf hbound hhas htlb hlocked, .inr ⟨hbad, hhas.pte, rfl⟩⟩
    rw [sites_eq]
    dsimp only [setTable]
    split_ifs
    · rw [bindingSites_cons, bindingSites_nil, add_zero]
      ac_rfl
    · rw [bindingSites_nil, add_zero, add_zero]
      ac_rfl
  rw [if_neg (by simp)]
  refine (publishLocked_spec next).aside hat1 trivial ?_
  rintro _ w2 hat2 hk2 rfl
  have hle : {lock (.space i)} + t.sites ≤ {lock (.space i)} + t.sites + (bindingSites c.bindings +
      if flags.dontUnmap = true then {backing binding.backing} else 0) + x :=
    le_self_add.trans le_self_add
  have htlb2 := htlb.keeps hk2 (Multiset.mem_of_le hle (by simp))
  have hlocked2 := hlocked.keeps hk2 ((le_add_left le_rfl).trans hle)
  have hbound2 := hbound.keeps hk2
  have hold := (bound_iff hwf.snapshot).1 hbound2
  have hcancel : ∀ k, k * pageSize / pageSize = k := fun k ↦ Nat.mul_div_cancel k (by decide)
  have hentries : ∀ p, t.pte p = moveResult (mapping.start / pageSize)
      ((mapping.stop - mapping.start) / pageSize) (v.start / pageSize)
      ((v.stop - v.start) / pageSize) c.pageTable.pte p := fun p ↦ by
    rw [hm.start, hm.stop, hv.start, hv.stop, Nat.add_sub_cancel_left, Nat.add_sub_cancel_left,
      hcancel, hcancel, hcancel, hcancel]
    exact hhas.pte p
  have hstop : v.stop = v.start + m * pageSize := by rw [hv.start, hv.stop]
  cases hkeep : flags.dontUnmap with
  | true =>
    rw [hkeep, if_pos rfl] at hcookie
    rw [hkeep] at hnext hat2
    obtain ⟨hinfo, hshared⟩ := hbound2.backingIs hmapping hbinding
    have hsound := Sound.shifted (i := i) hwf hmapping hm hv hlike hnext hhas htlb2 hlocked2
      (viewBound_new hwf hinfo (hshared.trans hlike.shared.symm) hcookie)
      (fun a x hx ↦ (hold a x hx).cons hwf _) (hwf.cookies_cons _) (Nat.succ_ne_zero _)
    have hbacking : Binding.find v.mappingCookie (Binding.prune
        (⟨binding.backing, c.nextMappingCookie⟩ :: c.bindings) next).1 =
          some ⟨binding.backing, c.nextMappingCookie⟩ := by
      rw [find_shifted hnext (by rw [hcookie]; exact hwf.nextCookie), hcookie]
      simp [Binding.find]
    refine ⟨hat2.congr ?_, hsound, .inl ⟨rfl, v, ⟨?_, hnext, hentries, rfl⟩, hlike, rfl, hstop⟩⟩
    swap
    · refine (congrArg (Option.map Binding.backing) hbacking).trans ?_
      rw [backingOf, hbinding]
      rfl
    have hsites := Binding.sites_prune
      (⟨binding.backing, c.nextMappingCookie⟩ :: c.bindings) next
    rw [bindingSites_cons, add_comm] at hsites
    dsimp only
    rw [zero_add, if_pos rfl, hsites, sites_eq]
    change _ = _ + (t.sites + _) + _
    ac_rfl
  | false =>
    rw [hkeep, if_neg (by simp)] at hcookie
    rw [hkeep] at hnext hat2
    have hsound := Sound.shifted (i := i) hwf hmapping hm hv hlike hnext hhas htlb2 hlocked2
      (hbound2.like hmapping hcookie hlike.shared) hold hwf.cookies hwf.nextCookie
    have hbacking : Binding.find v.mappingCookie (Binding.prune c.bindings next).1 =
        Binding.find v.mappingCookie c.bindings :=
      find_shifted hnext (by rw [hcookie]; exact (hbound2 mapping hmapping).1)
    refine ⟨hat2.congr ?_, hsound, .inl ⟨rfl, v, ⟨?_, hnext, hentries, rfl⟩, hlike, rfl, hstop⟩⟩
    swap
    · refine (congrArg (Option.map Binding.backing) hbacking).trans ?_
      rw [hcookie]
      rfl
    dsimp only
    rw [zero_add, if_neg (by simp), add_zero, Binding.sites_prune _ next, sites_eq]
    change _ = _ + (t.sites + _) + _
    ac_rfl

/-- The mapping that `minimm_mremap` makes when it moves one. -/
def movedVma (c : Space) (mapping : Vma) (newSize destination : ℕ) (keep : Bool) : Vma :=
  { mapping with
    start := destination
    stop := destination + newSize
    mappingCookie := if keep then c.nextMappingCookie else mapping.mappingCookie }

/-- Nothing is mapped in an interval. -/
def Vacant (c : Space) (start stop : ℕ) : Prop :=
  ∀ x, start ≤ x → x < stop → viewAt c.vmaSnapshot.ranges x = none

theorem Vacant.pte (h : c.Vacant (d * pageSize) (d * pageSize + m * pageSize)) (hwf : c.Wf) {p : ℕ}
    (hp : d ≤ p ∧ p < d + m) : c.pageTable.pte p = none := by
  by_contra hne
  obtain ⟨pte, hpte⟩ := Option.ne_none_iff_exists'.1 hne
  obtain ⟨x, hx, -⟩ := hwf.view hpte
  obtain ⟨hle, hlt⟩ := within_pages.2 hp
  rw [h _ hle hlt] at hx
  cases hx

theorem mremapMove_spec {flags : MremapFlags} {binding : Binding} {destination : ℕ} (hwf : c.Wf)
    (hmapping : mapping ∈ c.vmaSnapshot.ranges) (hm : Spans mapping a n)
    (hbinding : Binding.find mapping.mappingCookie c.bindings = some binding)
    (hapart : mapping.stop ≤ destination ∨ destination + m * pageSize ≤ mapping.start)
    (hfree : flags.fixed = false → n ≤ m ∧ c.Vacant destination (destination + m * pageSize))
    {p : Code (RemapResult × Space)}
    (hp : mremapMove i c mapping (m * pageSize) destination flags binding.backing = p) :
    Triple μ 0 ({lock (.space i)} + c.sites) (Sound μ i ∅ c) p
      (fun r ↦ {lock (.space i)} + r.2.sites + bindingSites r.1.2.2)
      fun r s ↦ Sound μ i ∅ r.2 s ∧ RemapOutcome mapping c (m * pageSize) flags.dontUnmap r := by
  intro s x w hK hat h
  have hfail : ∀ {w : World} {status : Status}, status ≠ .ok →
      At μ s x ({lock (.space i)} + c.sites) w → Sound μ i ∅ c w.sys →
      At μ s x ({lock (.space i)} + c.sites + bindingSites []) w ∧ (Sound μ i ∅ c w.sys ∧
        RemapOutcome mapping c (m * pageSize) flags.dontUnmap ((status, addressAuto, []), c)) :=
    fun hbad hat h ↦ ⟨hat.congr (by simp), h, .inr ⟨hbad, .refl c⟩⟩
  rw [← hp]
  unfold mremapMove
  by_cases hmax : flags.dontUnmap = true ∧ c.nextMappingCookie = sizeMax
  · rw [if_pos hmax]
    exact hfail nofun hat h
  rw [if_neg hmax]
  refine (mremapSnapshot_built hwf.snapshot mapping
    (c.movedVma mapping (m * pageSize) destination flags.dontUnmap) flags).triple.aside hat
      trivial ?_
  rintro ⟨status, next⟩ w1 hat1 hk1 (⟨-, next, rfl, hnext⟩ | ⟨hbad, rfl⟩)
  swap
  · exact hfail hbad (hat1.congr (zero_add _)) (h.keeps_sites hk1 le_rfl)
  have h1 := h.keeps_sites hk1 le_rfl
  have hcreate : Spends μ 0 0 (fun _ ↦ True)
      (if flags.dontUnmap then Binding.create else pure .ok) :=
    .ite (fun _ ↦ bindingCreate_spec) fun _ ↦ .pure rfl fun _ _ ↦ trivial
  refine hcreate.seq hat1 rfl zero_le trivial fun status w2 hat2 hk2 _ ↦ ?_
  rw [zero_add] at hat2
  have h2 := h1.keeps_sites hk2 le_rfl
  by_cases hok : status ≠ .ok
  · rw [if_pos hok]
    exact hfail hok hat2 h2
  rw [if_neg hok]
  have hback : backing binding.backing ∈ c.sites :=
    Inv.binding_mem (List.mem_of_find?_eq_some hbinding)
  have hretain : Triple μ {backing binding.backing} 0 (fun _ ↦ True)
      (Code.when flags.dontUnmap (Backing.retain binding.backing))
      (fun _ ↦ if flags.dontUnmap = true then {backing binding.backing} else 0)
      fun _ _ ↦ True := by
    refine .when (fun hkeep ↦ ?_) fun hkeep ↦ ⟨by simp [hkeep], fun _ _ ↦ trivial⟩
    rw [if_pos hkeep]
    exact retainBacking_spec
  refine hretain.seq hat2 (zero_add _).symm ?_ trivial fun _ w3 hat3 hk3 _ ↦ ?_
  · exact (Multiset.singleton_le.2 hback).trans ((le_add_left le_rfl).trans le_self_add)
  have h3 := h2.keeps_sites hk3 le_rfl
  have hd := Nat.div_mul_cancel (Nat.dvd_of_mod_eq_zero hnext.valid.startAligned)
  change destination / pageSize * pageSize = destination at hd
  have hv : Spans (c.movedVma mapping (m * pageSize) destination flags.dontUnmap)
      (destination / pageSize) m := ⟨hd.symm, by rw [hd]; rfl⟩
  have hdisjoint : Apart a n (destination / pageSize) m := fun q hq hq' ↦ by
    have h1 := within_pages.2 hq
    have h2 := within_pages.2 hq'
    rw [hd] at h2
    rw [hm.start, hm.stop] at hapart
    have hlo := h1.1
    have hhi := h1.2
    have hlo' := h2.1
    have hhi' := h2.2
    omega
  generalize hcommit : mremapCommit i c mapping
    { mapping with
      start := destination
      stop := destination + m * pageSize
      mappingCookie := if flags.dontUnmap then c.nextMappingCookie else mapping.mappingCookie }
    flags binding.backing next = commit
  refine (mremapCommit_spec (v := c.movedVma mapping (m * pageSize) destination flags.dontUnmap) hwf
    hmapping hm hv ⟨rfl, rfl, rfl, rfl⟩ rfl hbinding hnext hdisjoint
    (fun hfixed ↦ ⟨(hfree hfixed).1, fun q hq ↦ ?_⟩) hcommit).tail (F := 0) hat3
    ((add_comm _ _).trans (add_zero _).symm) zero_le h3 fun r w4 hat4 _ hr ↦
      ⟨hat4.congr (add_zero _), hr⟩
  have hvacant := (hfree hfixed).2
  rw [← hd] at hvacant
  exact hvacant.pte hwf hq

/-! ## In place -/

/-- The mapping with another length. -/
def resized (mapping : Vma) (newSize : ℕ) : Vma := { mapping with stop := mapping.start + newSize }

/-- The answer of `mremapInPlace`, or the advice to move the mapping. -/
def ResizeOutcome (mapping : Vma) (c : Space) (newSize : ℕ)
    (r : Option RemapResult × Space) : Prop :=
  match r.1 with
  | some result => RemapOutcome mapping c newSize false (result, r.2) ∧ result.2.2 = []
  | none => r.2 = c ∧ mapping.stop - mapping.start < newSize

theorem spans_resized (hm : Spans mapping a n) : Spans (resized mapping (m * pageSize)) a m :=
  ⟨hm.start, by rw [← hm.start]; rfl⟩

theorem entries_resized (hm : Spans mapping a n) {f : ℕ → Option Pte}
    (hf : ∀ p, f p = moveResult a n a m g p) (p : ℕ) :
    f p = moveResult (mapping.start / pageSize) ((mapping.stop - mapping.start) / pageSize)
      ((resized mapping (m * pageSize)).start / pageSize)
      (((resized mapping (m * pageSize)).stop - (resized mapping (m * pageSize)).start) / pageSize)
      g p := by
  have hcancel : ∀ k, k * pageSize / pageSize = k := fun k ↦ Nat.mul_div_cancel k (by decide)
  have hv := spans_resized (m := m) hm
  rw [hv.start, hv.stop, hm.start, hm.stop, Nat.add_sub_cancel_left, Nat.add_sub_cancel_left,
    hcancel, hcancel, hcancel]
  exact hf p

theorem Shifted.refl (h : c.Wf) (hmapping : mapping ∈ c.vmaSnapshot.ranges)
    (hm : Spans mapping a n) :
    Shifted c.vmaSnapshot mapping (resized mapping (n * pageSize)) false c.vmaSnapshot := by
  have hstop : mapping.start + n * pageSize = mapping.stop := by rw [hm.start, hm.stop]
  have hsame : resized mapping (n * pageSize) = mapping := by rw [resized, hstop]
  rw [hsame]
  refine ⟨h.snapshot, h.snapshot.ordered.valid mapping hmapping, fun x ↦ ?_⟩
  split_ifs with hin
  · exact h.snapshot.ordered.viewAt_iff.2 ⟨mapping, hmapping, hin, rfl⟩
  · rfl

theorem Valid.shrunk (h : mapping.Valid) {newSize : ℕ} (hpos : 0 < newSize)
    (haligned : newSize % pageSize = 0) (hle : newSize ≤ mapping.stop - mapping.start) :
    (resized mapping newSize).Valid := by
  have hlt := h.lt
  have hlimit := h.limit
  have hoffset := h.offset
  have hstart := h.startAligned
  refine ⟨?_, ?_, hstart, ?_, h.offsetAligned, h.prot, h.maxProt, h.within, ?_⟩
  · exact Nat.lt_add_of_pos_right hpos
  · simp only [resized]
    omega
  · simp only [resized, pageSize] at *
    omega
  · simp only [resized]
    omega

theorem Shifted.shrunk (h : c.Wf) (hmapping : mapping ∈ c.vmaSnapshot.ranges) {newSize : ℕ}
    (hpos : 0 < newSize) (haligned : newSize % pageSize = 0)
    (hlt : newSize < mapping.stop - mapping.start)
    (hnext : Removed c.vmaSnapshot (mapping.start + newSize) mapping.stop next) :
    Shifted c.vmaSnapshot mapping (resized mapping newSize) false next := by
  have hvalid := h.snapshot.ordered.valid mapping hmapping
  refine ⟨hnext.good, Valid.shrunk hvalid hpos haligned hlt.le, fun x ↦ ?_⟩
  have hview := fun hin ↦ h.snapshot.ordered.viewAt_iff.2 ⟨mapping, hmapping,
    (contains_iff (a := x)).2 hin, rfl⟩
  rw [hnext.view]
  simp only [contains_iff, resized, Bool.false_eq_true, if_false]
  split_ifs
  · omega
  · rfl
  · omega
  · exact hview (by omega)
  · omega
  · rfl

theorem moveResult_same (p : ℕ) : g p = moveResult a n a n g p := by
  rw [moveResult]
  split_ifs
  · congr 1
    omega
  · omega
  · rfl

theorem swept_shrunk (hmn : m ≤ n) (p : ℕ) :
    swept (a * pageSize + m * pageSize) (a * pageSize + n * pageSize) (fun _ _ ↦ none) g p =
      moveResult a n a m g p := by
  have hin : Within (a * pageSize + m * pageSize) (a * pageSize + n * pageSize) p ↔
      a + m ≤ p ∧ p < a + n := by
    rw [← Nat.add_mul, ← Nat.add_mul]
    exact and_congr (Nat.mul_le_mul_right_iff (by decide)) (Nat.mul_lt_mul_right (by decide))
  by_cases hp : a + m ≤ p ∧ p < a + n
  · rw [swept_of_within (hin.2 hp), Option.bind_fun_none, moveResult, if_neg (by omega),
      if_pos (by omega)]
  · rw [swept_of_not fun h ↦ hp (hin.1 h), moveResult]
    split_ifs
    · congr 1
      omega
    · omega
    · omega
    · rfl

theorem moveResult_grown (hnm : n ≤ m) (hfree : ∀ p, a + n ≤ p ∧ p < a + m → g p = none) (p : ℕ) :
    g p = moveResult a n a m g p := by
  rw [moveResult]
  split_ifs
  · congr 1
    omega
  · exact hfree p (by omega)
  · omega
  · rfl

/-- The mapping in place has another length: nothing has become of its binding. -/
theorem Sound.resized (h : c.Wf) (hb : c.Bound s) (hmapping : mapping ∈ c.vmaSnapshot.ranges)
    (hm : Spans mapping a n)
    (hnext : Shifted c.vmaSnapshot mapping (resized mapping (m * pageSize)) false next)
    (ht : t.Has (moveResult a n a m c.pageTable.pte)) (htlb : Tlb.All (Agrees t) i s)
    (hlocked : t.LockedResident μ s bad) :
    Sound μ i bad { c.setTable t with vmaSnapshot := next } s := by
  have hfits : Fits { c with vmaSnapshot := next } t.pte :=
    h.shifted hmapping hm (spans_resized hm) ⟨rfl, rfl, rfl, rfl⟩ hnext ht
  refine ⟨⟨hnext.good, ht.good, h.cookies, h.nextCookie, h.base, hfits⟩, ?_, htlb, hlocked⟩
  exact (bound_iff hnext.good).2 fun _ _ hx ↦ viewBound_shifted hnext
    (hb.like hmapping rfl rfl) ((bound_iff h.snapshot).1 hb) hx

theorem mremapInPlace_spec (hwf : c.Wf) (hmapping : mapping ∈ c.vmaSnapshot.ranges)
    (hm : Spans mapping a n) (hpos : 0 < m) :
    Works μ 0 i c (mremapInPlace i c mapping (m * pageSize))
      fun r _ ↦ ResizeOutcome mapping c (m * pageSize) r := by
  intro s x w hK hat h
  have hvalid := hwf.snapshot.ordered.valid mapping hmapping
  have hlength : mapping.stop - mapping.start = n * pageSize := by
    rw [hm.start, hm.stop, Nat.add_sub_cancel_left]
  have hfail : ∀ {w : World} {status : Status}, status ≠ .ok →
      At μ s x ({lock (.space i)} + c.sites) w → Sound μ i ∅ c w.sys →
      At μ s x ({lock (.space i)} + c.sites) w ∧ (Sound μ i ∅ c w.sys ∧
        ResizeOutcome mapping c (m * pageSize) (some (status, addressAuto, []), c)) :=
    fun hbad hat h ↦ ⟨hat, h, .inr ⟨hbad, .refl c⟩, rfl⟩
  unfold mremapInPlace
  rw [hlength]
  by_cases hsame : m * pageSize = n * pageSize
  · rw [if_pos hsame]
    obtain rfl : m = n := Nat.eq_of_mul_eq_mul_right (by decide) hsame
    refine ⟨hat, h, .inl ⟨rfl, resized mapping (m * pageSize), ⟨rfl, Shifted.refl hwf hmapping hm,
      entries_resized hm moveResult_same, rfl⟩, ⟨rfl, rfl, rfl, rfl⟩, rfl, rfl⟩, rfl⟩
  rw [if_neg hsame]
  by_cases hless : m * pageSize < n * pageSize
  · rw [if_pos hless]
    have hmn : m < n := Nat.lt_of_mul_lt_mul_right hless
    refine (remove_built hwf.snapshot _ _).triple.aside hat trivial ?_
    rintro ⟨status, next⟩ w1 hat1 hk1 (⟨-, next, rfl, hnext, hrange⟩ | ⟨hbad, rfl⟩)
    swap
    · exact hfail hbad (hat1.congr (zero_add _)) (h.keeps_sites hk1 le_rfl)
    have h1 := h.keeps_sites hk1 le_rfl
    obtain ⟨hlt, hlimit, hstart, hstop⟩ := pageRangeIsValid_iff.1 hrange
    refine (unmapPagesLocked_spec hwf.has hlt.le hlimit hstart hstop).seq
      (F := bindingSites c.bindings) hat1 ?_ zero_le ⟨h1.tlb, h1.locked⟩ ?_
    · rw [zero_add, sites_eq, add_assoc]
    intro t w2 hat2 hk2 ⟨hhas, htlb, hlocked⟩
    refine (publishLocked_spec next).aside hat2 trivial ?_
    rintro _ w3 hat3 hk3 rfl
    have hle : {lock (.space i)} + t.sites ≤
        {lock (.space i)} + t.sites + bindingSites c.bindings + x := le_self_add.trans le_self_add
    have hshift := Shifted.shrunk hwf hmapping (Nat.mul_pos hpos (by decide)) (Nat.mul_mod_left _ _)
      (by rw [hlength]; exact hless) hnext
    rw [hm.start, hm.stop] at hhas
    have hentries := hhas.congr (swept_shrunk (a := a) hmn.le)
    refine ⟨hat3.congr ?_, .resized hwf ((h1.bound.keeps hk2).keeps hk3) hmapping hm hshift hentries
      (htlb.keeps hk3 (Multiset.mem_of_le hle (by simp)))
      (hlocked.keeps hk3 ((le_add_left le_rfl).trans hle)), .inl ⟨rfl,
      resized mapping (m * pageSize), ⟨rfl, hshift, entries_resized hm hentries.pte, rfl⟩,
      ⟨rfl, rfl, rfl, rfl⟩, rfl, rfl⟩, rfl⟩
    rw [zero_add, add_assoc]
    rfl
  rw [if_neg hless]
  have hgrows : n < m := Nat.lt_of_mul_lt_mul_right (a := pageSize) (by omega)
  by_cases hroom : m * pageSize ≤ userAddressLimit - mapping.start
  swap
  · rw [if_neg hroom]
    exact ⟨hat, h, rfl, by rw [hlength]; exact Nat.mul_lt_mul_of_pos_right hgrows (by decide)⟩
  rw [if_pos hroom]
  have hadvice : ∀ {w : World} {status : Status}, status ≠ .ok →
      At μ s x ({lock (.space i)} + c.sites) w → Sound μ i ∅ c w.sys →
      At μ s x ({lock (.space i)} + c.sites) w ∧ (Sound μ i ∅ c w.sys ∧
        ResizeOutcome mapping c (m * pageSize)
          (if status ≠ .addressInUse then some (status, addressAuto, []) else none, c)) := by
    intro w status hbad hat h
    split_ifs
    · exact hfail hbad hat h
    · exact ⟨hat, h, rfl, by rw [hlength]; exact Nat.mul_lt_mul_of_pos_right hgrows (by decide)⟩
  refine (remove_built hwf.snapshot _ _).triple.aside hat trivial ?_
  rintro ⟨status, without⟩ w1 hat1 hk1 (⟨-, without, rfl, hremoved, -⟩ | ⟨hbad, rfl⟩)
  swap
  · exact hadvice hbad (hat1.congr (zero_add _)) (h.keeps_sites hk1 le_rfl)
  have h1 := h.keeps_sites hk1 le_rfl
  refine (insert_built hremoved.good (resized mapping (m * pageSize))).triple.seq hat1 rfl zero_le
    trivial ?_
  rintro ⟨status, next⟩ w2 hat2 hk2 (⟨-, next, rfl, hnext⟩ | ⟨hbad, rfl⟩)
  swap
  · exact hadvice hbad (hat2.congr (zero_add _)) (h1.keeps_sites hk2 le_rfl)
  have h2 := h1.keeps_sites hk2 le_rfl
  refine (publishLocked_spec next).seq hat2 rfl zero_le trivial ?_
  rintro _ w3 hat3 hk3 rfl
  have h3 := h2.keeps_sites hk3 le_rfl
  have hshift : Shifted c.vmaSnapshot mapping (resized mapping (m * pageSize)) false next :=
    .of_removed hremoved hnext.laid
  -- what the mapping has grown over was not mapped
  have hfree : ∀ p, a + n ≤ p ∧ p < a + m → c.pageTable.pte p = none := fun p hp ↦ by
    by_contra hne
    obtain ⟨pte, hpte⟩ := Option.ne_none_iff_exists'.1 hne
    obtain ⟨y, hy, -⟩ := hwf.view hpte
    have hin : a ≤ p ∧ p < a + m := by omega
    have hnone := hnext.free _ ((spans_resized hm).contains.2 hin)
    have hbeside : ¬mapping.contains (p * pageSize) = true := hm.contains.not.2 (by omega)
    rw [hremoved.view, if_neg fun hin ↦ hbeside (contains_iff.2 hin), hy] at hnone
    cases hnone
  have hentries := hwf.has.congr (moveResult_grown hgrows.le hfree)
  refine ⟨hat3.congr (zero_add _), .resized hwf h3.bound hmapping hm hshift hentries
    h3.tlb h3.locked,
    .inl ⟨rfl, resized mapping (m * pageSize), ⟨rfl, hshift, entries_resized hm hentries.pte, rfl⟩,
      ⟨rfl, rfl, rfl, rfl⟩, rfl, rfl⟩, rfl⟩

/-! ## The call -/

theorem mremapFits_spec (info : BackingInfo) (mapping : Vma) (newSize : ℕ) :
    Spends μ 0 0 (fun _ ↦ True) (mremapFits info mapping newSize) := by
  unfold mremapFits
  split
  · exact .pure rfl fun _ _ ↦ trivial
  · intro s x w hK hat h
    exact loadSize_spec.next hat trivial fun _ w1 hat1 _ _ ↦ ⟨hat1, trivial⟩

theorem findGap_vacant (h : c.vmaSnapshot.Good) {lower length : ℕ}
    (hfound : (c.vmaSnapshot.findGap lower userAddressLimit length).1 = .ok) :
    c.Vacant (c.vmaSnapshot.findGap lower userAddressLimit length).2
      ((c.vmaSnapshot.findGap lower userAddressLimit length).2 + length) := by
  have hargs : GapArgs lower userAddressLimit length pageSize := by
    rw [findGap, findGapAligned] at hfound
    split_ifs at hfound with hbad
    refine ⟨by omega, le_rfl, by omega, by omega, le_rfl, ⟨12, rfl⟩⟩
  rw [findGap] at hfound ⊢
  rcases findGapAligned_finds h.ordered hargs with ⟨-, hfits, -⟩ | ⟨hnone, -⟩
  · intro x hle hlt
    by_contra hne
    obtain ⟨y, hy⟩ := Option.ne_none_iff_exists'.1 hne
    obtain ⟨v, hv, hcontains, -⟩ := h.ordered.viewAt_iff.1 hy
    have hbeside := hfits.free v hv
    rw [contains_iff] at hcontains
    omega
  · rw [hnone] at hfound
    cases hfound

theorem mremapMapping_spec {flags : MremapFlags} {hint : ℕ} {binding : Binding} (hwf : c.Wf)
    (hmapping : mapping ∈ c.vmaSnapshot.ranges) (hm : Spans mapping a n) (hpos : 0 < m)
    (hbinding : Binding.find mapping.mappingCookie c.bindings = some binding)
    (hapart : flags.fixed = true →
      mapping.stop ≤ hint ∨ hint + m * pageSize ≤ mapping.start)
    {p : Code (RemapResult × Space)}
    (hp : mremapMapping i c mapping (m * pageSize) hint flags binding.backing = p) :
    Triple μ 0 ({lock (.space i)} + c.sites) (Sound μ i ∅ c) p
      (fun r ↦ {lock (.space i)} + r.2.sites + bindingSites r.1.2.2)
      fun r s ↦ Sound μ i ∅ r.2 s ∧ RemapOutcome mapping c (m * pageSize) flags.dontUnmap r := by
  intro s x w hK hat h
  have hfail : ∀ {w : World} {status : Status}, status ≠ .ok →
      At μ s x ({lock (.space i)} + c.sites) w → Sound μ i ∅ c w.sys →
      At μ s x ({lock (.space i)} + c.sites + bindingSites []) w ∧ (Sound μ i ∅ c w.sys ∧
        RemapOutcome mapping c (m * pageSize) flags.dontUnmap ((status, addressAuto, []), c)) :=
    fun hbad hat h ↦ ⟨hat.congr (by simp), h, .inr ⟨hbad, .refl c⟩⟩
  have hlength : mapping.stop - mapping.start = n * pageSize := by
    rw [hm.start, hm.stop, Nat.add_sub_cancel_left]
  rw [← hp]
  unfold mremapMapping
  have hmem := List.mem_of_find?_eq_some hbinding
  refine backingInfo_any.seq hat (zero_add _).symm
    ((backing_le hmem).trans ((le_add_left le_rfl).trans le_self_add)) trivial
    fun info w1 hat1 hk1 _ ↦ ?_
  rw [zero_add] at hat1
  have h1 := h.keeps_sites hk1 le_rfl
  by_cases hunsupported : flags.dontUnmap = true ∧ (m * pageSize ≠ mapping.stop - mapping.start ∨
      mapping.shared = true ∨ info.kind ≠ .anonPrivate)
  · rw [if_pos hunsupported]
    exact hfail nofun hat1 h1
  rw [if_neg hunsupported]
  refine (mremapFits_spec info mapping _).aside hat1 trivial
    fun fits w2 hat2 hk2 _ ↦ ?_
  rw [zero_add] at hat2
  have h2 := h1.keeps_sites hk2 le_rfl
  by_cases hfits : fits = false
  · rw [if_pos hfits]
    exact hfail nofun hat2 h2
  rw [if_neg hfits]
  by_cases hfixed : flags.fixed = true
  · rw [if_pos hfixed]
    generalize hmove : mremapMove i c mapping (m * pageSize) hint flags binding.backing = move
    exact mremapMove_spec hwf hmapping hm hbinding (hapart hfixed)
      (fun hnot ↦ absurd hfixed (by simp [hnot])) hmove s x w2 hK hat2 h2
  rw [if_neg hfixed]
  have hplace : Works μ 0 i c
      (if flags.dontUnmap then pure (none, c) else mremapInPlace i c mapping (m * pageSize))
      fun r _ ↦ r.1 = none ∧ r.2 = c ∧ n ≤ m ∨ flags.dontUnmap = false ∧
        ∃ result, r.1 = some result ∧ RemapOutcome mapping c (m * pageSize) false (result, r.2) ∧
          result.2.2 = [] := by
    refine .ite (fun hkeep ↦ .pure rfl fun _ h ↦ ⟨h, .inl ⟨rfl, rfl, ?_⟩⟩) fun hkeep ↦ ?_
    · have hsize := not_and.1 hunsupported hkeep
      rw [not_or, not_not, hlength] at hsize
      exact (Nat.eq_of_mul_eq_mul_right (by decide) hsize.1).ge
    · refine (mremapInPlace_spec hwf hmapping hm hpos).post ?_
      rintro ⟨result, c'⟩ s ⟨hsound, hin⟩
      refine ⟨hsound, ?_⟩
      cases result with
      | none =>
        obtain ⟨hsame, hlt⟩ := hin
        rw [hlength] at hlt
        exact .inl ⟨rfl, hsame, (Nat.lt_of_mul_lt_mul_right hlt).le⟩
      | some result => exact .inr ⟨Bool.eq_false_of_not_eq_true hkeep, result, rfl, hin⟩
  refine hplace.first hat2 h2 ?_
  rintro ⟨result, c'⟩ w3 hat3 - ⟨h3, ⟨rfl, rfl, hnm⟩ | ⟨hkeep, result, rfl, hres, hnil⟩⟩
  swap
  · refine ⟨hat3.congr ?_, h3, by rw [hkeep]; exact hres⟩
    dsimp only
    rw [hnil, bindingSites_nil]
  rw [add_zero] at hat3
  dsimp only at hat3 h3 ⊢
  by_cases hmay : flags.mayMove = false
  · rw [if_pos hmay]
    split_ifs
    · exact hfail nofun hat3 h3
    · exact hfail nofun hat3 h3
  rw [if_neg hmay]
  by_cases hfound : (c'.vmaSnapshot.findGap c'.mmapBase userAddressLimit (m * pageSize)).1 ≠ .ok
  · rw [if_pos hfound]
    exact hfail hfound hat3 h3
  rw [if_neg hfound]
  have hvacant := findGap_vacant hwf.snapshot (not_not.1 hfound)
  generalize hgap : (c'.vmaSnapshot.findGap c'.mmapBase userAddressLimit (m * pageSize)).2 = gap
    at hvacant ⊢
  generalize hmove : mremapMove i c' mapping (m * pageSize) gap flags binding.backing = move
  refine mremapMove_spec hwf hmapping hm hbinding ?_ (fun _ ↦ ⟨hnm, hvacant⟩) hmove
    s x w3 hK hat3 h3
  by_contra hmeets
  rw [not_or, not_le, not_le] at hmeets
  have hlt := (hwf.snapshot.ordered.valid mapping hmapping).lt
  have hpos' : 0 < m * pageSize := Nat.mul_pos hpos (by decide)
  have hin : mapping.contains (max gap mapping.start) = true := contains_iff.2 (by omega)
  have hview := hwf.snapshot.ordered.viewAt_iff.2 ⟨mapping, hmapping, hin, rfl⟩
  rw [hvacant _ (by omega) (by omega)] at hview
  cases hview

/-- What `minimm_mremap` leaves of a space, for a request of a page range. -/
def MremapOutcome (c : Space) (oldAddress oldSize newSize : ℕ) (keep : Bool)
    (r : RemapResult × Space) : Prop :=
  r.1.1 = .ok ∧ (∃ mapping v, c.vmaSnapshot.lookup oldAddress = some mapping ∧
      mapping.start = oldAddress ∧ mapping.stop = oldAddress + oldSize ∧
      Remapped mapping v keep c r.2 ∧ SameKind mapping v ∧ v.start = r.1.2.1 ∧
      v.stop = r.1.2.1 + newSize) ∨
    r.1.1 ≠ .ok ∧ Unchanged c r.2

theorem mremapLocked_spec {oldAddress oldSize newSize : ℕ} {flags : MremapFlags} {hint : ℕ}
    (hpages : newSize % pageSize = 0) (hpos : 0 < newSize)
    (hapart : flags.fixed = true →
      oldAddress + oldSize ≤ hint ∨ hint + newSize ≤ oldAddress) :
    Triple μ 0 ({lock (.space i)} + c.sites) (Sound μ i ∅ c)
      (mremapLocked i oldAddress oldSize newSize flags hint c)
      (fun r ↦ {lock (.space i)} + r.2.sites + bindingSites r.1.2.2)
      fun r s ↦ Sound μ i ∅ r.2 s ∧
        MremapOutcome c oldAddress oldSize newSize flags.dontUnmap r := by
  obtain ⟨m, rfl⟩ : ∃ m, newSize = m * pageSize :=
    ⟨_, (Nat.div_mul_cancel (Nat.dvd_of_mod_eq_zero hpages)).symm⟩
  intro s x w hK hat h
  have hfail : ∀ {status : Status}, status ≠ .ok →
      At μ s x ({lock (.space i)} + c.sites + bindingSites []) w ∧ (Sound μ i ∅ c w.sys ∧
        MremapOutcome c oldAddress oldSize (m * pageSize) flags.dontUnmap
          ((status, addressAuto, []), c)) :=
    fun hbad ↦ ⟨hat.congr (by simp), h, .inr ⟨hbad, .refl c⟩⟩
  unfold mremapLocked
  cases hlookup : c.vmaSnapshot.lookup oldAddress with
  | none => exact hfail nofun
  | some mapping =>
    dsimp only
    split_ifs with hbad
    · exact hfail nofun
    rw [not_or, not_not, not_not] at hbad
    split
    · exact hfail nofun
    next binding hbinding =>
      have hmapping := ((lookup_eq_some h.wf.snapshot).1 hlookup).1
      have hm := spans (h.wf.snapshot.ordered.valid mapping hmapping)
      generalize hremap : mremapMapping i c mapping (m * pageSize) hint flags
        binding.backing = remap
      refine (mremapMapping_spec h.wf hmapping hm (Nat.pos_of_mul_pos_right hpos) hbinding ?_
        hremap).tail (F := 0) hat (add_zero _).symm zero_le h fun r w1 hat1 _ ⟨hsound, hres⟩ ↦ ?_
      · rw [hbad.1, hbad.2]
        exact hapart
      · refine ⟨hat1.congr (add_zero _), hsound, hres.imp_left fun hr ↦ ⟨hr.1, ?_⟩⟩
        obtain ⟨v, hremapped, hlike, hstart, hstop⟩ := hr.2
        exact ⟨mapping, v, hlookup, hbad.1, hbad.2, hremapped, hlike, hstart, hstop⟩

theorem mremap_apart {oldAddress oldSize newSize hint : ℕ} {flags : MremapFlags}
    (hvalid : mremapRangesAreValid oldAddress oldSize newSize flags.fixed hint = true)
    (hfixed : flags.fixed = true) : oldAddress + oldSize ≤ hint ∨ hint + newSize ≤ oldAddress := by
  simp only [mremapRangesAreValid, hfixed, Bool.and_eq_true, Bool.not_true, Bool.false_or,
    Bool.not_eq_true', Bool.and_eq_false_imp, decide_eq_true_eq, decide_eq_false_iff_not] at hvalid
  have := hvalid.2.2
  omega

theorem mremap_spec (oldAddress oldLength newLength : ℕ) (flags : MremapFlags) (hint : ℕ) :
    Spends μ 0 0 (fun s ↦ i < s.nextSpace)
      (mremap i oldAddress oldLength newLength flags hint) := by
  unfold mremap
  refine .guard fun _ ↦ ?_
  refine .guard fun _ ↦ ?_
  split
  swap
  · exact .pure rfl fun _ _ ↦ trivial
  next oldSize newSize hold hnew =>
  refine .ite (fun _ ↦ .pure rfl fun _ _ ↦ trivial) fun hvalid ↦ ?_
  rw [Bool.not_eq_false] at hvalid
  have hapart := mremap_apart hvalid
  exact withLock_destroy_plain (fun r : Status × ℕ × List Binding ↦ r.2.2) (fun r ↦ (r.1, r.2.1))
    (.busy, addressAuto, []) rfl fun c _ ↦
      (mremapLocked_spec (mappingAlignLength_page hnew) (mappingAlignLength_pos hnew) hapart).post
        fun _ _ h ↦ h.1

end Space

end MiniMM
