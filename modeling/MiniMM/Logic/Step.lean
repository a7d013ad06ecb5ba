import MiniMM.Frame.Reach
import MiniMM.Logic.Counters

/-!
# Every step keeps the invariant and what others rely on
-/

namespace MiniMM

open Handle Tally

namespace Sys

variable {s s' : Sys}

theorem lock_ok {α : Type} {l : LockId} {v b : α} (h : s.lock l v = .ok b s') :
    s.held l = false ∧ b = v ∧ s' = { s with held := Function.update s.held l true } := by
  rw [lock] at h
  split_ifs at h with hheld
  cases h
  exact ⟨by simpa using hheld, rfl, rfl⟩

theorem countUp_ok {n : ℕ} {t : Sys} {b : Unit} (h : countUp n t = .ok b s') : s' = t := by
  rw [countUp] at h
  split_ifs at h
  cases h
  rfl

end Sys

namespace Inv

variable {μ : Mode} {w w' : World} {β : Type} {o : Sys.Op β} {b : β}

theorem request (h : Inv μ w) {f : FrameId} {r : FrameStore.Request} {woken : Bool}
    {reply : FrameStore.Reply} {s' : Sys} {mine' : Multiset Handle} (hf : w.Reaches f)
    (hexec : w.sys.exec (.request f r woken) = .ok reply s') (hmine : mine' = w.mine) :
    Inv μ ⟨s', mine', w.others⟩ := by
  rw [Sys.exec] at hexec
  split at hexec
  · cases hexec
  · cases hexec
  · next m heq =>
    cases hexec
    exact h.quiet_change (FrameStore.exec_quiet h.store rfl
      (fun g hg ↦ by cases hg; exact h.reaches_live hf) heq) hmine

theorem activeMappings_change (h : Inv μ w) {n : NoteId} {count : ℕ} {mine' : Multiset Handle}
    (hn : n < w.sys.nextNote)
    (hcount : count = w.sys.activeMappings n + 1 ∨ w.sys.activeMappings n = count + 1)
    (hmine : mine' + w.sys.take (.setActiveMappings n count) =
      w.mine + w.sys.give (.setActiveMappings n count) ()) :
    Inv μ ⟨{ w.sys with activeMappings := Function.update w.sys.activeMappings n count }, mine',
      w.others⟩ := by
  refine h.note_change w.sys.noteSize w.sys.noteRefs _ hmine ?_ ?_
    fun _ hne ↦ (hne rfl).elim
  · intro x
    cases x with
    | mapping k =>
      by_cases hk : k = n
      · subst hk
        simp only [Sys.count, Sys.take, Sys.give, Function.update_self]
        split_ifs <;> simp <;> omega
      · simp only [Sys.count, Sys.take, Sys.give, Function.update_of_ne hk]
        split_ifs <;> simp [hk]
    | _ =>
      simp only [Sys.count, Sys.take, Sys.give]
      split_ifs <;> simp
  · intro k hk
    have hne : k ≠ n := (hn.trans_le hk).ne'
    rw [Function.update_of_ne hne]
    exact h.fresh.note k hk

theorem nextFile (h : Inv μ w) (n : FileId) :
    Inv μ ⟨{ w.sys with nextFile := n }, w.mine, w.others⟩ := by
  refine ⟨h.store, h.tally, h.live, h.lent,
    ⟨h.fresh.frame, h.fresh.lock, h.fresh.backing, h.fresh.note, h.fresh.noteLineage⟩,
    ⟨h.tlbs.entry, h.tlbs.capacity⟩, fun l hl hfree ↦ ?_⟩
  have hok := h.locks l hl hfree
  cases l with
  | space i => exact hok.congr rfl (fun _ _ ↦ rfl) fun _ _ _ _ hr ↦ hr
  | brk i => trivial
  | backing b => exact hok
  | lineage v => exact hok.congr (fun _ ↦ Iff.rfl) fun _ _ ↦ rfl

/-- A step of a thread that owns what the step requires keeps the invariant. -/
theorem next (h : Inv μ w) (hlegal : (rules μ).legal o w) (hnext : Next μ o w b w') :
    Inv μ w' := by
  obtain ⟨hown, hneeds⟩ := hlegal
  obtain ⟨⟨woken, hexec⟩, hmine, hothers, -⟩ := hnext
  have htake : w.sys.take o ≤ w.mine := le_self_add.trans hown
  have huses : w.sys.uses o ≤ w.mine := (le_add_left le_rfl).trans hown
  obtain ⟨s', mine', others'⟩ := w'
  dsimp only at hexec hmine hothers
  subst hothers
  cases o with
  | create source b offset shared =>
    simp only [Sys.Op.wake, Sys.exec] at hexec
    split at hexec
    · cases hexec
    · next heq =>
      cases hexec
      exact h.create heq (by simpa [Sys.take, Sys.give] using hmine)
  | request f r => exact h.request hneeds hexec (by simpa [Sys.take, Sys.give] using hmine)
  | store o =>
    simp only [Sys.Op.wake, Sys.exec] at hexec
    split at hexec
    · cases hexec
    · next heq =>
      cases hexec
      exact h.store_op htake hneeds heq hmine
  | malloc | fileCall =>
    cases hexec
    exact h.quiet_change (FrameStore.quiet_files h.store _ _)
      (by simpa [Sys.take, Sys.give] using hmine)
  | abort | stuck => cases hexec
  | retain f =>
    cases Sys.countUp_ok hexec
    exact h.retain hneeds (by simpa [Sys.take, Sys.give] using hmine)
  | drop site f =>
    cases hexec
    exact h.drop (Multiset.singleton_le.1 htake) (by simpa [Sys.take, Sys.give] using hmine)
  | tlb i o =>
    have hl : lock (.space i) ∈ w.mine := Multiset.singleton_le.1 huses
    cases o with
    | capacity | entry | count =>
      cases hexec
      exact h.tlb_change hl (p := 0) (r := 0) (by simpa [Sys.take, Sys.give] using hmine) rfl
        rfl (h.tlbs.entry i)
    | set k e =>
      cases hexec
      refine h.tlb_change hl hmine (Tlb.sites_set hneeds.1 e) rfl fun k' e' he' ↦ ?_
      by_cases hk : k' = k
      · subst hk
        simp only [Sys.execTlb, Function.update_self] at he'
        exact ⟨hneeds.1, hneeds.2 e' he'⟩
      · simp only [Sys.execTlb, Function.update_of_ne hk] at he'
        exact h.tlbs.entry i k' e' he'
  | lockSpace i =>
    obtain ⟨hfree, rfl, rfl⟩ := Sys.lock_ok hexec
    exact h.take_lock hneeds hfree (.of_held true) (by simp) (Multiset.zero_le _) hmine
  | lockBrk i =>
    obtain ⟨hfree, rfl, rfl⟩ := Sys.lock_ok hexec
    exact h.take_lock hneeds hfree (.of_held true) (by simp) (Multiset.zero_le _) hmine
  | lockBacking b =>
    obtain ⟨hfree, rfl, rfl⟩ := Sys.lock_ok hexec
    have hb := h.backing_pos (Multiset.singleton_le.1 htake)
    refine h.take_lock (Sys.backing_mem_locks.2 hb.2) hfree (.of_held true) (by simp) htake ?_
    simpa [Sys.guarded, Sys.lent, Sys.take, Sys.give, hb.1] using hmine
  | lockLineage l =>
    obtain ⟨hfree, rfl, rfl⟩ := Sys.lock_ok hexec
    exact h.take_lock hneeds hfree (.of_held true) (by simp) (Multiset.zero_le _) hmine
  | unlockSpace i c =>
    cases hexec
    refine h.put_lock (l := .space i) (Multiset.mem_of_le htake
      (Multiset.mem_add.2 (Or.inl (Multiset.mem_singleton_self _)))) ?_ (by simp) ?_
      (by simpa only [Sys.guarded, Function.update_self, Sys.lent, Sys.take,
        Sys.give] using hmine)
    · exact ⟨rfl, rfl, rfl, rfl, rfl, rfl, rfl, rfl, rfl, rfl, rfl, rfl, rfl,
        fun _ hk ↦ Function.update_of_ne hk _ _,
        fun j hj ↦ Function.update_of_ne (fun heq ↦ hj (congrArg _ heq)) _ _,
        fun _ _ ↦ rfl, fun _ _ ↦ rfl⟩
    · simp only [Sys.LockOk, Function.update_self]
      exact hneeds.congr rfl (fun _ _ ↦ rfl) fun _ _ _ _ hr ↦ hr
  | unlockBrk i brk =>
    cases hexec
    refine h.put_lock (l := .brk i) (Multiset.mem_of_le htake (by simp [Sys.take])) ?_
      (by simp) trivial (by simpa [Sys.guarded, Sys.lent, Sys.take, Sys.give] using hmine)
    exact ⟨rfl, rfl, rfl, rfl, rfl, rfl, rfl, rfl, rfl, rfl, rfl, rfl, rfl,
      fun _ hk ↦ Function.update_of_ne hk _ _, fun _ _ ↦ rfl, fun _ _ ↦ rfl, fun _ _ ↦ rfl⟩
  | unlockBacking b pages =>
    cases hexec
    have hl : lock (.backing b) ∈ w.mine := Multiset.mem_of_le htake (by simp [Sys.take])
    have hb := h.lent b (h.held_of_mem hl)
    refine h.put_lock hl ?_ (by simp) ?_
      (by simpa [Sys.guarded, Sys.lent, Sys.take, Sys.give, hb] using hmine)
    · exact ⟨rfl, rfl, rfl, rfl, rfl, rfl, rfl, rfl, rfl, rfl, rfl, rfl, rfl,
        fun _ hk ↦ Function.update_of_ne hk _ _, fun _ _ ↦ rfl,
        fun j hj ↦ Function.update_of_ne (fun heq ↦ hj (congrArg _ heq)) _ _, fun _ _ ↦ rfl⟩
    · simp only [Sys.LockOk, Function.update_self]
      exact fun _ ↦ hneeds
  | unlockLineage l v =>
    cases hexec
    refine h.put_lock (l := .lineage l) (Multiset.mem_of_le htake (by simp [Sys.take])) ?_
      (by simp) ?_ (by simpa [Sys.guarded, Sys.lent, Sys.take, Sys.give] using hmine)
    · exact ⟨rfl, rfl, rfl, rfl, rfl, rfl, rfl, rfl, rfl, rfl, rfl, rfl, rfl,
        fun _ hk ↦ Function.update_of_ne hk _ _, fun _ _ ↦ rfl, fun _ _ ↦ rfl,
        fun j hj ↦ Function.update_of_ne (fun heq ↦ hj (congrArg _ heq)) _ _⟩
    · simp only [Sys.LockOk, Function.update_self]
      exact hneeds.congr (fun _ ↦ Iff.rfl) fun _ _ ↦ rfl
  | closing | tlbAvailable | backingInfo | noteInfo | noteSize | activeMappings =>
    cases hexec
    rw [show mine' = w.mine by simpa [Sys.take, Sys.give] using hmine]
    exact h
  | newSpace c brk =>
    cases hexec
    exact h.newSpace hneeds (by simpa [Sys.take, Sys.give] using hmine)
  | newBacking info =>
    cases hexec
    exact h.newBacking hmine
  | retainBacking b =>
    cases Sys.countUp_ok hexec
    exact h.retainBacking hneeds (by simpa [Sys.take, Sys.give] using hmine)
  | dropBacking b =>
    cases hexec
    refine h.dropBacking (Multiset.singleton_le.1 htake) ?_
    by_cases hone : w.sys.backingRefs b = 1 <;>
      simpa [Sys.take, Sys.give, hone] using hmine
  | setNoteSize n size =>
    cases hexec
    refine h.note_change _ w.sys.noteRefs w.sys.activeMappings hmine
      (fun _ ↦ rfl) h.fresh.note fun k hk ↦ ?_
    by_cases hkn : k = n
    · subst hkn
      exact Multiset.singleton_le.1 huses
    · exact (hk (Function.update_of_ne hkn _ _)).elim
  | setActiveMappings n count =>
    cases hexec
    exact h.activeMappings_change hneeds.1 hneeds.2 hmine
  | retainNote n =>
    cases Sys.countUp_ok hexec
    refine h.note_change w.sys.noteSize _ w.sys.activeMappings hmine
      (fun x ↦ ?_) (fun k hk ↦ ?_) fun _ hne ↦ (hne rfl).elim
    · cases x with
      | note k =>
        by_cases hk : k = n
        · subst hk
          simp [Sys.count, Sys.take, Sys.give]
        · simp [Sys.count, Sys.take, Sys.give, hk]
      | _ => simp [Sys.count, Sys.take, Sys.give]
    · rw [Function.update_of_ne (Nat.lt_of_lt_of_le hneeds hk).ne']
      exact h.fresh.note k hk
  | dropNote n =>
    cases hexec
    have hpos : 0 < w.sys.noteRefs n := h.pos (Multiset.singleton_le.1 htake)
    have hn := h.note_lt (Multiset.singleton_le.1 htake)
    refine h.note_change w.sys.noteSize _ w.sys.activeMappings hmine
      (fun x ↦ ?_) (fun k hk ↦ ?_) fun _ hne ↦ (hne rfl).elim
    · cases x with
      | note k =>
        by_cases hk : k = n
        · subst hk
          simp only [Sys.count, Sys.take, Sys.give, Function.update_self,
            Multiset.count_singleton_self, Multiset.count_zero]
          omega
        · simp [Sys.count, Sys.take, Sys.give, hk]
      | _ => simp [Sys.count, Sys.take, Sys.give]
    · rw [Function.update_of_ne (hn.trans_le hk).ne']
      exact h.fresh.note k hk
  | newLineage =>
    cases hexec
    exact h.newLineage (by simpa [Sys.take, Sys.give] using hmine)
  | newNote info size =>
    simp only [Sys.Op.wake, Sys.exec] at hexec
    split_ifs at hexec
    · cases hexec
      rw [show mine' = w.mine by simpa [Sys.take, Sys.give] using hmine]
      exact h
    · cases hexec
      exact h.newNote (Multiset.singleton_le.1 huses) (by simpa [Sys.take, Sys.give] using hmine)
  | newFile bytes =>
    cases hexec
    have hq := (h.nextFile (w.sys.nextFile + 1)).quiet_change
      (FrameStore.quiet_files h.store w.sys.store.host
        (Function.update w.sys.store.file w.sys.nextFile ⟨bytes, .ok⟩))
      (show mine' = w.mine by simpa [Sys.take, Sys.give] using hmine)
    exact hq

end Inv

/-! ## What others rely on -/

theorem Keeps.of_eq {x : Multiset Handle} {s s' : Sys} (htlb : s'.tlb = s.tlb)
    (hentries : s'.tlbEntries = s.tlbEntries)
    (hres : ∀ f, ref f ∈ x → pin f ∈ x ∨ transient f ∈ x →
      s.store.resident f = true → s'.store.resident f = true)
    (hspace : s'.nextSpace = s.nextSpace) (hbacking : s'.nextBacking = s.nextBacking)
    (hnote : s'.nextNote = s.nextNote) (hlineage : s.nextLineage ≤ s'.nextLineage)
    (hinfo : s'.backingInfo = s.backingInfo) (hnoteInfo : s'.noteInfo = s.noteInfo)
    (hsize : s'.noteSize = s.noteSize) (hactive : s'.activeMappings = s.activeMappings) :
    Keeps x s s' where
  tlb i _ := congrFun htlb i
  tlbEntries := hentries
  resident := hres
  nextSpace := hspace.ge
  nextBacking := hbacking.ge
  nextNote := hnote.ge
  nextLineage := hlineage
  backingInfo b _ := congrFun hinfo b
  noteInfo n _ := congrFun hnoteInfo n
  noteSize n _ _ := ⟨congrFun hsize n, congrFun hactive n⟩
  newNote _ hlt hge := absurd (hnote ▸ hlt) (Nat.not_lt_of_ge hge)

namespace Inv

variable {μ : Mode} {w : World} {β : Type} {o : Sys.Op β} {b : β} {x : Multiset Handle}
  {s' : Sys} {woken : Bool}

theorem lock_once (h : Inv μ w) {l : LockId} (hown : {lock l} + x ≤ w.mine + w.others) :
    lock l ∉ x := by
  intro hmem
  have htwo : 2 ≤ ({lock l} + x).count (lock l) := by
    rw [Multiset.count_add, Multiset.count_singleton_self]
    have := Multiset.count_pos.2 hmem
    omega
  have hle := h.tally.count_le (x := lock l)
    (hown.trans (by rw [add_assoc]; exact le_add_left le_rfl))
  simp only [Sys.count] at hle
  split_ifs at hle <;> omega

theorem pos_le (h : Inv μ w) (hle : x ≤ w.mine + w.others) {y : Handle} (hy : y ∈ x) :
    0 < w.sys.count y := by
  refine h.tally.pos ?_
  rw [add_assoc]
  exact Multiset.mem_add.2 (.inr (Multiset.mem_of_le hle hy))

theorem pinned_le (h : Inv μ w) (hle : x ≤ w.mine + w.others) {f : FrameId}
    (hp : pin f ∈ x ∨ transient f ∈ x) : (w.sys.store.frame f).Pinned := by
  rcases hp with hp | hp
  · exact .inl (h.pos_le hle hp).ne'
  · exact .inr (h.pos_le hle hp).ne'

theorem store_resident (h : Inv μ w) {α : Type} {o : FrameStore.Op α} {r : α} {m : FrameStore}
    (hown : storeTake o + x ≤ w.mine + w.others) (hneeds : storeNeeds w o)
    (heq : w.sys.store.exec o = .ok (r, m)) {f : FrameId} (hf : ref f ∈ x)
    (hp : pin f ∈ x ∨ transient f ∈ x) (hr : w.sys.store.resident f = true) :
    m.resident f = true := by
  have hx : x ≤ w.mine + w.others := (le_add_left le_rfl).trans hown
  have hquiet : o.quiet = true → (∀ g, o.frame? = some g → w.Reaches g) →
      m.resident f = true := fun ho hn ↦
    (FrameStore.exec_quiet h.store ho (fun g hg ↦ h.reaches_live (hn g hg)) heq).pinned f
      (h.pinned_le hx hp) hr
  cases o with
  | create => exact hneeds.elim
  | request => exact hneeds.elim
  | release g =>
    have hlast := h.pos_le (x := {last g}) (le_self_add.trans hown)
      (Multiset.mem_singleton_self _)
    have hne : f ≠ g := by
      rintro rfl
      have hpos := h.pos_le hx hf
      simp only [Sys.count] at hpos hlast
      split_ifs at hlast with hzero
      · omega
      · exact Nat.lt_irrefl _ hlast
    have hlive : g ∈ w.sys.store.frames := by
      by_contra hnot
      simp [Sys.count, hnot] at hlast
    rw [FrameStore.resident, (FrameStore.exec_release h.store hlive heq).others f hne]
    exact hr
  | map g => rwa [(FrameStore.exec_map h.store (h.reaches_live (hneeds g rfl)) heq).resident]
  | unmap g => rwa [(FrameStore.exec_unmap h.store (h.reaches_live (hneeds g rfl)) heq).resident]
  | pin site g => rwa [(FrameStore.exec_pin h.store (h.reaches_live (hneeds g rfl)) heq).resident]
  | unpin g => rwa [(FrameStore.exec_unpin h.store (h.reaches_live (hneeds g rfl)) heq).resident]
  | tryPinResident g =>
    obtain ⟨-, hrec⟩ := FrameStore.exec_tryPinResident h.store (h.reaches_live (hneeds g rfl)) heq
    split_ifs at hrec
    · rwa [hrec.resident]
    · rwa [hrec]
  | unpinResident g =>
    rwa [(FrameStore.exec_unpinResident h.store (h.reaches_live (hneeds g rfl)) heq).resident]
  | _ => exact hquiet rfl hneeds

theorem create_resident (h : Inv μ w) {source : FrameSource} {c : FileId} {offset : ℕ}
    {shared : Bool} {r : Status × FrameId} {m : FrameStore} {f : FrameId}
    (hpos : 0 < w.sys.refs f)
    (heq : w.sys.store.exec (.create source c offset shared) = .ok (r, m)) :
    m.resident f = w.sys.store.resident f := by
  obtain ⟨status, g⟩ := r
  obtain ⟨-, hcreate⟩ := FrameStore.exec_create h.store heq
  split_ifs at hcreate
  · obtain ⟨hg, -, -, hframe⟩ := hcreate
    have hne : f ≠ g := by
      rintro rfl
      have := (h.fresh.frame f hg.ge).1
      omega
    rw [FrameStore.resident, hframe, Function.update_of_ne hne]
    rfl
  · rw [FrameStore.resident, hcreate.2.2]
    rfl

theorem keeps (h : Inv μ w) (hown : w.sys.take o + w.sys.uses o + x ≤ w.mine + w.others)
    (hneeds : needs μ w o) (hexec : w.sys.exec (o.wake woken) = .ok b s') :
    Keeps x w.sys s' := by
  have hx : x ≤ w.mine + w.others := (le_add_left le_rfl).trans hown
  have htake : w.sys.take o + x ≤ w.mine + w.others := by
    refine le_trans ?_ hown
    rw [add_right_comm]
    exact le_self_add
  have huses : w.sys.uses o + x ≤ w.mine + w.others := by
    refine le_trans ?_ hown
    rw [add_assoc]
    exact le_add_left le_rfl
  -- a lock that does not exist is nobody's
  have hnew : ∀ l, l ∉ w.sys.locks → lock l ∉ x := by
    intro l hl hmem
    have hpos := h.pos_le hx hmem
    simp [Sys.count, h.fresh.lock l hl] at hpos
  cases o with
  | create source c offset shared =>
    simp only [Sys.Op.wake, Sys.exec] at hexec
    split at hexec
    · cases hexec
    · next heq =>
      cases hexec
      refine .of_eq rfl rfl (fun f hf _ hr ↦ ?_) rfl rfl rfl le_rfl rfl rfl rfl rfl
      exact (h.create_resident (h.pos_le hx hf) heq).trans hr
  | request f r =>
    simp only [Sys.Op.wake, Sys.exec] at hexec
    split at hexec
    · cases hexec
    · cases hexec
    · next m heq =>
      cases hexec
      have hq := FrameStore.exec_quiet h.store rfl
        (fun g hg ↦ by cases hg; exact h.reaches_live hneeds) heq
      exact .of_eq rfl rfl (fun f _ hp ↦ hq.pinned f (h.pinned_le hx hp)) rfl rfl rfl le_rfl
        rfl rfl rfl rfl
  | store o =>
    simp only [Sys.Op.wake, Sys.exec] at hexec
    split at hexec
    · cases hexec
    · next heq =>
      cases hexec
      exact .of_eq rfl rfl (fun f hf hp hr ↦ h.store_resident htake hneeds heq hf hp hr) rfl rfl
        rfl le_rfl rfl rfl rfl rfl
  | malloc | fileCall =>
    cases hexec
    exact .of_eq rfl rfl (fun _ _ _ hr ↦ hr) rfl rfl rfl le_rfl rfl rfl rfl rfl
  | abort | stuck => cases hexec
  | retain f =>
    cases Sys.countUp_ok hexec
    exact .of_eq rfl rfl (fun _ _ _ hr ↦ hr) rfl rfl rfl le_rfl rfl rfl rfl rfl
  | drop site f =>
    cases hexec
    exact .of_eq rfl rfl (fun _ _ _ hr ↦ hr) rfl rfl rfl le_rfl rfl rfl rfl rfl
  | tlb i o =>
    cases hexec
    refine { Keeps.refl with tlb := fun j hj ↦ ?_ }
    have hne : j ≠ i := by
      rintro rfl
      exact h.lock_once huses hj
    exact Function.update_of_ne hne _ _
  | lockSpace | lockBrk | lockBacking | lockLineage =>
    obtain ⟨-, -, rfl⟩ := Sys.lock_ok hexec
    exact .of_eq rfl rfl (fun _ _ _ hr ↦ hr) rfl rfl rfl le_rfl rfl rfl rfl rfl
  | unlockSpace | unlockBrk | unlockBacking | unlockLineage | closing | tlbAvailable | backingInfo
  | noteInfo | noteSize | activeMappings | dropBacking | dropNote | newLineage =>
    cases hexec
    exact .of_eq rfl rfl (fun _ _ _ hr ↦ hr) rfl rfl rfl (by simp) rfl rfl rfl rfl
  | newSpace c brk =>
    cases hexec
    refine { Keeps.refl with
      tlb := fun j hj ↦ Function.update_of_ne ?_ _ _
      nextSpace := Nat.le_succ _ }
    rintro rfl
    exact hnew _ (by simp) hj
  | newBacking info =>
    cases hexec
    exact { Keeps.refl with
      backingInfo := fun c hc ↦ Function.update_of_ne hc.ne _ _
      nextBacking := Nat.le_succ _ }
  | retainBacking | retainNote =>
    cases Sys.countUp_ok hexec
    exact .of_eq rfl rfl (fun _ _ _ hr ↦ hr) rfl rfl rfl le_rfl rfl rfl rfl rfl
  | setNoteSize n size =>
    cases hexec
    refine { Keeps.refl with noteSize := fun k _ hl ↦ ⟨Function.update_of_ne ?_ _ _, rfl⟩ }
    rintro rfl
    exact h.lock_once huses hl
  | setActiveMappings n count =>
    cases hexec
    refine { Keeps.refl with noteSize := fun k _ hl ↦ ⟨rfl, Function.update_of_ne ?_ _ _⟩ }
    rintro rfl
    exact h.lock_once huses hl
  | newNote info size =>
    simp only [Sys.Op.wake, Sys.exec] at hexec
    split_ifs at hexec
    · cases hexec
      exact .refl
    · cases hexec
      refine { Keeps.refl with
        noteInfo := fun k hk ↦ Function.update_of_ne hk.ne _ _
        noteSize := fun k hk _ ↦
          ⟨Function.update_of_ne hk.ne _ _, Function.update_of_ne hk.ne _ _⟩
        nextNote := Nat.le_succ _
        newNote := fun k hk hge ↦ ?_ }
      obtain rfl : k = w.sys.nextNote := Nat.le_antisymm (Nat.lt_succ_iff.1 hk) hge
      simp only [Function.update_self]
      exact h.lock_once huses
  | newFile bytes =>
    cases hexec
    exact .of_eq rfl rfl (fun _ _ _ hr ↦ hr) rfl rfl rfl le_rfl rfl rfl rfl rfl

theorem again (h : Inv μ w) {f : FrameId} {r : FrameStore.Request} (hf : w.Reaches f)
    (hexec : w.sys.exec (.request f r woken) = .again s') :
    Inv μ ⟨s', w.mine, w.others⟩ ∧ (x ≤ w.mine + w.others → Keeps x w.sys s') := by
  rw [Sys.exec] at hexec
  split at hexec
  · cases hexec
  · next m heq =>
    cases hexec
    have hq := FrameStore.exec_quiet h.store rfl
      (fun g hg ↦ by cases hg; exact h.reaches_live hf) heq
    refine ⟨h.quiet_change hq rfl, fun hx ↦ ?_⟩
    exact .of_eq rfl rfl (fun f _ hp ↦ hq.pinned f (h.pinned_le hx hp)) rfl rfl rfl le_rfl
      rfl rfl rfl rfl
  · cases hexec

theorem created (host : Host) (file : FileId → FileBacking) (pageCount tlbEntries : ℕ) :
    Inv μ ⟨.created host file pageCount tlbEntries, 0, 0⟩ where
  store := FrameStore.create_invariant host file pageCount
  tally := by
    have hlocks : (Sys.created host file pageCount tlbEntries).locks = ∅ := rfl
    have hstored : (Sys.created host file pageCount tlbEntries).stored = 0 := by
      rw [Sys.stored, hlocks]
      rfl
    rw [hstored]
    intro x
    cases x <;> rfl
  live f hf := absurd hf (lt_irrefl 0)
  lent b hb := absurd hb Bool.false_ne_true
  fresh := by
    refine ⟨fun f _ ↦ ⟨rfl, rfl, rfl, rfl⟩, fun l _ ↦ rfl, fun b _ ↦ rfl, fun n _ ↦ ⟨rfl, rfl⟩, ?_⟩
    exact fun n hn ↦ absurd hn (Nat.not_lt_zero n)
  tlbs := by
    refine ⟨fun i k e he ↦ ?_, fun i hi ↦ absurd hi (Nat.not_lt_zero i)⟩
    cases he
  locks l hl := by
    have hlocks : (Sys.created host file pageCount tlbEntries).locks = ∅ := rfl
    exact absurd hl (hlocks ▸ Finset.notMem_empty l)

end Inv

end MiniMM
