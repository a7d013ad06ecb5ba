import MiniMM.Frame.Effect
import MiniMM.Logic.World

/-!
# The steps keep the invariant

A thread that owns what a step requires keeps the invariant by making it.
-/

namespace MiniMM

open Handle Tally

/-! ## Small facts -/

theorem count_single {x y : Handle} (h : x ≠ y) : ({y} : Multiset Handle).count x = 0 :=
  Multiset.count_eq_zero.2 (by simpa using h)

theorem SpaceOk.congr {μ : Mode} {s s' : Sys} {i : SpaceId} {c : Space} (h : SpaceOk μ s i c)
    (htlb : s'.tlb i = s.tlb i)
    (hinfo : ∀ b ∈ c.bindings, s'.backingInfo b.backing = s.backingInfo b.backing)
    (hres : ∀ p pte, c.pageTable.pte p = some pte → pte.flags.locked = true →
      s.store.resident pte.frame = true → s'.store.resident pte.frame = true) :
    SpaceOk μ s' i c where
  snapshot := h.snapshot
  table := h.table
  bound v hv := by
    obtain ⟨hne, b, hfind, hkind⟩ := h.bound v hv
    exact ⟨hne, b, hfind, by rw [hinfo b (List.mem_of_find?_eq_some hfind), hkind]⟩
  cookies := h.cookies
  nextCookie := h.nextCookie
  base := h.base
  entry := h.entry
  tlb := by
    rw [htlb]
    exact h.tlb
  locked hp p pte hpte hl := hres p pte hpte hl (h.locked hp p pte hpte hl)

theorem LineageOk.congr {s s' : Sys} {l : LineageId} {v : Lineage} (h : LineageOk s l v)
    (hmember : ∀ n, n < s'.nextNote ∧ (s'.noteInfo n).lineage = l ↔
      n < s.nextNote ∧ (s.noteInfo n).lineage = l)
    (hsize : ∀ n ∈ v.members, s'.noteSize n = s.noteSize n) : LineageOk s' l v where
  nodup := h.nodup
  member n := (h.member n).trans (hmember n).symm
  parent n hn p hp := by
    obtain ⟨hlt, hpm, hc, h1, h2⟩ := h.parent n hn p hp
    rw [hsize n hn, hsize p hpm]
    exact ⟨hlt, hpm, hc, h1, h2⟩
  child := h.child
  childrenNodup := h.childrenNodup
  sorted := h.sorted
  page n hn := by
    rw [hsize n hn]
    exact h.page n hn
  size n hn := by
    rw [hsize n hn]
    exact h.size n hn

namespace Inv

variable {μ : Mode} {w : World} {x : Handle} {f : FrameId}

theorem pos (h : Inv μ w) (hx : x ∈ w.mine) : 0 < w.sys.count x :=
  h.tally.pos (by simp [hx])

theorem pos_stored (h : Inv μ w) (hx : x ∈ w.sys.stored) : 0 < w.sys.count x :=
  h.tally.pos (by simp [hx])

theorem ref_live (h : Inv μ w) (hf : ref f ∈ w.mine) : f ∈ w.sys.store.frames :=
  h.live f (h.pos hf)

theorem last_live (h : Inv μ w) (hf : last f ∈ w.mine) :
    w.sys.refs f = 0 ∧ f ∈ w.sys.store.frames := by
  have hpos := h.pos hf
  by_contra hne
  simp [Sys.count, hne] at hpos

theorem held_of_mem (h : Inv μ w) {l : LockId} (hl : lock l ∈ w.mine) : w.sys.held l = true := by
  have hpos := h.pos hl
  by_contra hne
  simp [Sys.count, hne] at hpos

theorem backing_pos (h : Inv μ w) {b : BackingId} (hb : backing b ∈ w.mine) :
    w.sys.backingRefs b ≠ 0 ∧ b < w.sys.nextBacking := by
  have hpos := h.pos hb
  have hne : w.sys.backingRefs b ≠ 0 := by
    intro hzero
    simp [Sys.count, hzero] at hpos
  refine ⟨hne, ?_⟩
  by_contra hge
  exact hne (h.fresh.backing b (Nat.le_of_not_lt hge))

theorem note_lt (h : Inv μ w) {n : NoteId} (hn : note n ∈ w.mine) : n < w.sys.nextNote := by
  by_contra hge
  have hpos := h.pos hn
  simp [Sys.count, (h.fresh.note n (Nat.le_of_not_lt hge)).1] at hpos

theorem lock_exists (h : Inv μ w) {l : LockId} (hl : lock l ∈ w.mine) : l ∈ w.sys.locks := by
  by_contra hnot
  have hheld := h.held_of_mem hl
  rw [h.fresh.lock l hnot] at hheld
  cases hheld

theorem reaches_pos (h : Inv μ w) (hf : w.Reaches f) : 0 < w.sys.refs f := by
  rcases hf with hf | ⟨i, k, e, hl, he, rfl⟩
  · exact h.pos hf
  · have hi := Sys.space_mem_locks.1 (h.lock_exists hl)
    have hsite : ref e.translation.frame ∈ (w.sys.tlb i).sites := by
      refine Multiset.mem_of_le (le_sum (f := fun k ↦ tlbEntrySites ((w.sys.tlb i).entries k))
        (Finset.mem_range.2 (h.tlbs.entry i k e he).1)) ?_
      simp [he, tlbEntrySites]
    have hle : (w.sys.tlb i).sites ≤ w.sys.stored :=
      ((le_sum (f := fun i ↦ (w.sys.tlb i).sites) (Finset.mem_range.2 hi)).trans le_self_add).trans
        le_self_add
    exact h.pos_stored (Multiset.mem_of_le hle hsite)

theorem reaches_live (h : Inv μ w) (hf : w.Reaches f) : f ∈ w.sys.store.frames :=
  h.live f (h.reaches_pos hf)

theorem guarded_le {s : Sys} {l : LockId} (hl : l ∈ s.locks) (hfree : s.held l = false) :
    s.guarded l ≤ s.stored := by
  have hle := le_sum (f := s.unheldPart) hl
  simp only [Sys.unheldPart, hfree, Bool.false_eq_true, if_false] at hle
  exact hle.trans (le_add_left le_rfl)

theorem pte_sites_le {t : PageTable} {p : ℕ} {pte : Pte} (hp : t.pte p = some pte) :
    pte.sites ≤ t.sites := by
  have hlt : p < keyCount := by
    by_contra hge
    simp [PageTable.pte, hge] at hp
  have hle := PageTable.entrySites_le (t := t) hlt
  rwa [hp] at hle

theorem ref_mem_sites (pte : Pte) : ref pte.frame ∈ pte.sites := by
  simp [Pte.sites]

theorem pin_mem_sites {pte : Pte} (h : pte.flags.locked = true) : pin pte.frame ∈ pte.sites := by
  simp [Pte.sites, h]

theorem binding_mem {c : Space} {b : Binding} (hb : b ∈ c.bindings) :
    backing b.backing ∈ c.sites := by
  refine Multiset.mem_add.2 (Or.inr ?_)
  exact Multiset.mem_coe.2 (List.mem_map_of_mem hb)

theorem binding_lt (h : Inv μ w) {i : SpaceId} (hi : .space i ∈ w.sys.locks)
    (hfree : w.sys.held (.space i) = false) {b : Binding} (hb : b ∈ (w.sys.space i).bindings) :
    b.backing < w.sys.nextBacking := by
  by_contra hge
  have hpos := h.pos_stored (Multiset.mem_of_le (guarded_le hi hfree) (binding_mem hb))
  simp [Sys.count, h.fresh.backing _ (Nat.le_of_not_lt hge)] at hpos

theorem locked_pinned (h : Inv μ w) {i : SpaceId} (hi : .space i ∈ w.sys.locks)
    (hfree : w.sys.held (.space i) = false) {p : ℕ} {pte : Pte}
    (hp : (w.sys.space i).pageTable.pte p = some pte) (hl : pte.flags.locked = true) :
    0 < w.sys.refs pte.frame ∧ (w.sys.store.frame pte.frame).Pinned := by
  have hle : pte.sites ≤ w.sys.stored :=
    ((pte_sites_le hp).trans le_self_add).trans (guarded_le hi hfree)
  have hpin := h.pos_stored (Multiset.mem_of_le hle (pin_mem_sites hl))
  exact ⟨h.pos_stored (Multiset.mem_of_le hle (ref_mem_sites pte)), Or.inl hpin.ne'⟩

theorem tally_change (h : Inv μ w) {s' : Sys} {mine' p r u d : Multiset Handle}
    (hmine : mine' + p = w.mine + r)
    (hstored : s'.stored + r + d = w.sys.stored + p + u)
    (hcount : ∀ x, s'.count x + d.count x = w.sys.count x + u.count x) :
    Tallies s'.count (s'.stored + mine' + w.others) := by
  refine h.tally.change hcount (add_right_cancel (b := p + r) ?_)
  calc s'.stored + mine' + w.others + d + (p + r)
      = (s'.stored + r + d) + (mine' + p) + w.others := by abel
    _ = (w.sys.stored + p + u) + (w.mine + r) + w.others := by rw [hstored, hmine]
    _ = w.sys.stored + w.mine + w.others + u + (p + r) := by abel

/-! ## Sections of the store -/

theorem store_change (h : Inv μ w) {m : FrameStore} {k : FrameId → ℕ}
    {mine' p r u d : Multiset Handle} (hinv : m.Invariant)
    (hmine : mine' + p = w.mine + r) (hgive : r + d = p + u)
    (hcount : ∀ x, ({ w.sys with store := m, refs := k } : Sys).count x + d.count x =
      w.sys.count x + u.count x)
    (hlive : ∀ f, 0 < k f → f ∈ m.frames)
    (hfresh : ∀ f, m.nextFrameId ≤ f → k f = 0 ∧ (m.frame f).mappings = 0 ∧
      (m.frame f).pinCount = 0 ∧ (m.frame f).transientPinCount = 0)
    (hpin : ∀ f, 0 < w.sys.refs f → (w.sys.store.frame f).Pinned →
      w.sys.store.resident f = true → m.resident f = true) :
    Inv μ ⟨{ w.sys with store := m, refs := k }, mine', w.others⟩ where
  store := hinv
  tally := h.tally_change hmine
    (by rw [add_assoc, add_assoc, hgive]; rfl) hcount
  live := hlive
  lent := h.lent
  fresh := ⟨hfresh, h.fresh.lock, h.fresh.backing, h.fresh.note, h.fresh.noteLineage⟩
  tlbs := ⟨h.tlbs.entry, h.tlbs.capacity⟩
  locks l hl hfree := by
    have hok := h.locks l hl hfree
    cases l with
    | space i =>
      exact hok.congr rfl (fun _ _ ↦ rfl) fun p pte hp hlk hr ↦
        hpin _ (h.locked_pinned hl hfree hp hlk).1 (h.locked_pinned hl hfree hp hlk).2 hr
    | brk i => trivial
    | backing b => exact hok
    | lineage l => exact hok.congr (fun _ ↦ Iff.rfl) fun _ _ ↦ rfl

theorem quiet_change (h : Inv μ w) {m : FrameStore} (hq : FrameStore.Quiet w.sys.store m)
    {mine' : Multiset Handle} (hmine : mine' = w.mine) :
    Inv μ ⟨{ w.sys with store := m }, mine', w.others⟩ := by
  refine h.store_change (p := 0) (r := 0) (u := 0) (d := 0) (k := w.sys.refs)
    hq.invariant (by rw [hmine]) rfl ?_ ?_ ?_ fun f _ ↦ hq.pinned f
  · intro x
    cases x <;> simp [Sys.count, hq.mappings, hq.pinCount, hq.transientPinCount, hq.frames]
  · rw [hq.frames]
    exact h.live
  · rw [hq.nextFrameId]
    intro f hf
    rw [hq.mappings, hq.pinCount, hq.transientPinCount]
    exact h.fresh.frame f hf

theorem recount_change (h : Inv μ w) {m : FrameStore} {x : Frame} {y : Handle}
    (hf : f ∈ w.sys.store.frames) (hr : FrameStore.Recounted w.sys.store m f x)
    {mine' p r : Multiset Handle} (hmine : mine' + p = w.mine + r)
    (hcount : ({ w.sys with store := w.sys.store.setFrame f x } : Sys).count y + p.count y =
      w.sys.count y + r.count y)
    (hothers : ∀ z, z ≠ y → p.count z = 0 ∧ r.count z = 0 ∧
      ({ w.sys with store := w.sys.store.setFrame f x } : Sys).count z = w.sys.count z) :
    Inv μ ⟨{ w.sys with store := m }, mine', w.others⟩ := by
  have heq := hr.eq
  subst heq
  refine h.store_change (k := w.sys.refs) hr.invariant hmine (add_comm _ _) ?_ h.live ?_ ?_
  · intro z
    by_cases hz : z = y
    · rw [hz]
      exact hcount
    · obtain ⟨h1, h2, h3⟩ := hothers z hz
      rw [h1, h2, add_zero, add_zero]
      exact h3
  · intro g hg
    have hne : g ≠ f := fun heq ↦
      Nat.lt_irrefl _ ((h.store.fresh f hf).trans_le (heq ▸ hg))
    simp only [FrameStore.setFrame, Function.update_of_ne hne]
    exact h.fresh.frame g hg
  · intro g _ _ hres
    rw [hr.resident]
    exact hres

theorem map_count (s : Sys) (f : FrameId) (n : ℕ) (y : Handle) (hy : y ≠ map f) :
    ({ s with store := s.store.setFrame f { s.store.frame f with mappings := n } } : Sys).count y =
      s.count y := by
  cases y with
  | map g =>
    have hne : g ≠ f := fun heq ↦ hy (congrArg map heq)
    simp [Sys.count, FrameStore.setFrame, Function.update_of_ne hne]
  | pin g | transient g =>
    by_cases hgf : g = f
    · subst hgf
      simp [Sys.count, FrameStore.setFrame]
    · simp [Sys.count, FrameStore.setFrame, Function.update_of_ne hgf]
  | _ => rfl

theorem pin_count (s : Sys) (f : FrameId) (n : ℕ) (y : Handle) (hy : y ≠ pin f) :
    ({ s with store := s.store.setFrame f { s.store.frame f with pinCount := n } } : Sys).count y =
      s.count y := by
  cases y with
  | pin g =>
    have hne : g ≠ f := fun heq ↦ hy (congrArg pin heq)
    simp [Sys.count, FrameStore.setFrame, Function.update_of_ne hne]
  | map g | transient g =>
    by_cases hgf : g = f
    · subst hgf
      simp [Sys.count, FrameStore.setFrame]
    · simp [Sys.count, FrameStore.setFrame, Function.update_of_ne hgf]
  | _ => rfl

theorem transient_count (s : Sys) (f : FrameId) (n : ℕ) (y : Handle) (hy : y ≠ transient f) :
    ({ s with
        store := s.store.setFrame f { s.store.frame f with transientPinCount := n } } :
      Sys).count y = s.count y := by
  cases y with
  | transient g =>
    have hne : g ≠ f := fun heq ↦ hy (congrArg transient heq)
    simp [Sys.count, FrameStore.setFrame, Function.update_of_ne hne]
  | map g | pin g =>
    by_cases hgf : g = f
    · subst hgf
      simp [Sys.count, FrameStore.setFrame]
    · simp [Sys.count, FrameStore.setFrame, Function.update_of_ne hgf]
  | _ => rfl

theorem release_change (h : Inv μ w) {m : FrameStore} (hlast : last f ∈ w.mine)
    (hr : FrameStore.Released w.sys.store m f) {mine' : Multiset Handle}
    (hmine : mine' + {last f} = w.mine) :
    Inv μ ⟨{ w.sys with store := m }, mine', w.others⟩ := by
  obtain ⟨hzero, hf⟩ := h.last_live hlast
  have hcount := hr.counts
  refine h.store_change (p := {last f}) (r := 0) (u := 0) (d := {last f})
    (k := w.sys.refs) hr.invariant (by rw [hmine, add_zero]) (by simp) ?_ ?_ ?_ ?_
  · intro x
    cases x with
    | last g =>
      by_cases hgf : g = f
      · subst hgf
        simp [Sys.count, hr.frames, hzero, hf, h.store.nodup.not_mem_erase]
      · simp [Sys.count, hr.frames, hgf, List.mem_erase_of_ne hgf]
    | map g => simp [Sys.count, (hcount g).1]
    | pin g => simp [Sys.count, (hcount g).2.1]
    | transient g => simp [Sys.count, (hcount g).2.2]
    | _ => simp [Sys.count]
  · intro g hg
    have hne : g ≠ f := fun heq ↦ by
      rw [heq, hzero] at hg
      exact Nat.lt_irrefl _ hg
    rw [hr.frames, List.mem_erase_of_ne hne]
    exact h.live g hg
  · rw [hr.nextFrameId]
    intro g hg
    rw [(hcount g).1, (hcount g).2.1, (hcount g).2.2]
    exact h.fresh.frame g hg
  · intro g hg _ hres
    have hne : g ≠ f := fun heq ↦ by
      rw [heq, hzero] at hg
      exact Nat.lt_irrefl _ hg
    rwa [FrameStore.resident, hr.others g hne]

theorem store_op (h : Inv μ w) {α : Type} {o : FrameStore.Op α} {r : α} {m : FrameStore}
    (htake : storeTake o ≤ w.mine) (hneeds : storeNeeds w o)
    (heq : w.sys.store.exec o = .ok (r, m)) {mine' : Multiset Handle}
    (hmine : mine' + storeTake o = w.mine + storeGive o r) :
    Inv μ ⟨{ w.sys with store := m }, mine', w.others⟩ := by
  have hquiet : o.quiet = true → storeTake o = 0 → storeGive o r = 0 →
      (∀ f, o.frame? = some f → w.Reaches f) →
      Inv μ ⟨{ w.sys with store := m }, mine', w.others⟩ := by
    intro ho ht hg hn
    rw [ht, hg, add_zero, add_zero] at hmine
    exact h.quiet_change
      (FrameStore.exec_quiet h.store ho (fun f hf ↦ h.reaches_live (hn f hf)) heq) hmine
  cases o with
  | create => exact hneeds.elim
  | request => exact hneeds.elim
  | release f =>
    have hlast : last f ∈ w.mine := Multiset.singleton_le.1 htake
    exact h.release_change hlast (FrameStore.exec_release h.store (h.last_live hlast).2 heq)
      (by simpa [storeTake, storeGive] using hmine)
  | map f =>
    have hf := h.reaches_live (hneeds f rfl)
    refine h.recount_change (y := map f) hf (FrameStore.exec_map h.store hf heq) hmine ?_ ?_
    · simp [Sys.count, FrameStore.setFrame, storeTake, storeGive]
    · exact fun z hz ↦ ⟨rfl, count_single hz, map_count _ _ _ z hz⟩
  | unmap f =>
    have hf := h.reaches_live (hneeds f rfl)
    have hpos := h.pos (Multiset.singleton_le.1 htake)
    refine h.recount_change (y := map f) hf (FrameStore.exec_unmap h.store hf heq) hmine ?_ ?_
    · simp only [Sys.count] at hpos
      simp [Sys.count, FrameStore.setFrame, storeTake, storeGive]
      omega
    · exact fun z hz ↦ ⟨count_single hz, rfl, map_count _ _ _ z hz⟩
  | pin site f =>
    have hf := h.reaches_live (hneeds f rfl)
    refine h.recount_change (y := pin f) hf (FrameStore.exec_pin h.store hf heq) hmine ?_ ?_
    · simp [Sys.count, FrameStore.setFrame, storeTake, storeGive]
    · exact fun z hz ↦ ⟨rfl, count_single hz, pin_count _ _ _ z hz⟩
  | unpin f =>
    have hf := h.reaches_live (hneeds f rfl)
    have hpos := h.pos (Multiset.singleton_le.1 htake)
    refine h.recount_change (y := pin f) hf (FrameStore.exec_unpin h.store hf heq) hmine ?_ ?_
    · simp only [Sys.count] at hpos
      simp [Sys.count, FrameStore.setFrame, storeTake, storeGive]
      omega
    · exact fun z hz ↦ ⟨count_single hz, rfl, pin_count _ _ _ z hz⟩
  | tryPinResident f =>
    have hf := h.reaches_live (hneeds f rfl)
    obtain ⟨-, hr⟩ := FrameStore.exec_tryPinResident h.store hf heq
    cases r with
    | false =>
      rw [if_neg (by simp)] at hr
      subst hr
      exact h.quiet_change (.refl h.store) (by simpa [storeTake, storeGive] using hmine)
    | true =>
      rw [if_pos rfl] at hr
      refine h.recount_change (y := transient f) hf hr hmine ?_ ?_
      · simp [Sys.count, FrameStore.setFrame, storeTake, storeGive]
      · exact fun z hz ↦
          ⟨rfl, count_single hz, transient_count _ _ _ z hz⟩
  | unpinResident f =>
    have hf := h.reaches_live (hneeds f rfl)
    have hpos := h.pos (Multiset.singleton_le.1 htake)
    refine h.recount_change (y := transient f) hf
      (FrameStore.exec_unpinResident h.store hf heq) hmine ?_ ?_
    · simp only [Sys.count] at hpos
      simp [Sys.count, FrameStore.setFrame, storeTake, storeGive]
      omega
    · exact fun z hz ↦
        ⟨count_single hz, rfl, transient_count _ _ _ z hz⟩
  | _ => exact hquiet rfl rfl rfl hneeds

end Inv

end MiniMM
