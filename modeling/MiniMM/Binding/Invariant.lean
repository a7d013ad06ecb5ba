import MiniMM.Logic.Alike
import MiniMM.Vma.Reach
import MiniMM.Lib.Tally

/-!
# Bindings, backings and notes

A mapping names its backing by a cookie, which the binding list of its space resolves; a backing
counts the bindings that refer to it, and a note the backings that are alive. What they keep
between calls, for all spaces together.
-/

namespace MiniMM

open Vma

/-- The rights of a note cover a mapping with this ceiling. -/
structure NoteRights.Covers (rights : NoteRights) (shared : Bool) (maximum : Prot) : Prop where
  read : rights.read = true
  share : shared = true → rights.share = true
  write : shared = true → maximum.write = true → rights.write = true
  edit : maximum.edit = true → rights.edit = true

namespace Space

/-- The backings that the bindings of a space refer to. -/
def backings (c : Space) : Multiset BackingId := ↑(c.bindings.map Binding.backing)

/-- The cookie occurs in the ranges. -/
def Occurs (ranges : List Vma) (cookie : ℕ) : Prop :=
  ∃ a x, viewAt ranges a = some x ∧ x.mappingCookie = cookie

/-- Cookies below the next one of the earlier space mean what they meant. -/
structure Later (c c' : Space) : Prop where
  next : c.nextMappingCookie ≤ c'.nextMappingCookie
  old : ∀ β ∈ c'.bindings, β.cookie < c.nextMappingCookie → β ∈ c.bindings

end Space

namespace Sys

/-- The backing can be behind what a mapping says about an address. -/
structure Backs (s : Sys) (b : BackingId) (x : View) : Prop where
  shared : (s.backingInfo b).kind.shared = x.shared
  rights : ∀ n, (s.backingInfo b).note = some n → (s.noteInfo n).rights.Covers x.shared x.maxProt
  offset : ∀ n, (s.backingInfo b).note = some n → x.noteOffset < s.noteSize n

/-- The bindings of a space are those of its mappings. -/
structure SpaceOk (s : Sys) (c : Space) : Prop where
  good : c.vmaSnapshot.Good
  nodup : (c.bindings.map Binding.cookie).Nodup
  bound : ∀ a x, viewAt c.vmaSnapshot.ranges a = some x →
    ∃ β ∈ c.bindings, β.cookie = x.mappingCookie ∧ s.Backs β.backing x
  used : ∀ β ∈ c.bindings, Space.Occurs c.vmaSnapshot.ranges β.cookie
  cookie : ∀ β ∈ c.bindings, 0 < β.cookie ∧ β.cookie < c.nextMappingCookie
  next : 0 < c.nextMappingCookie
  backing : ∀ β ∈ c.bindings, β.backing < s.nextBacking

/-- The backings of a note that are still referred to. -/
def liveBackings (s : Sys) (n : NoteId) : Finset BackingId :=
  {b ∈ Finset.range s.nextBacking | 0 < s.backingRefs b ∧ (s.backingInfo b).note = some n}

/-- The counts tally. `spaces` are the spaces as whoever holds their locks has them, and `owed` the
references that a call holds itself. -/
structure Tidy (s : Sys) (spaces : SpaceId → Space) (owed : Multiset BackingId) : Prop where
  refs : Tally.Tallies s.backingRefs (∑ i ∈ Finset.range s.nextSpace, (spaces i).backings + owed)
  owed : ∀ b ∈ owed, b < s.nextBacking
  active : ∀ n, s.activeMappings n = (s.liveBackings n).card
  note : ∀ b < s.nextBacking, ∀ n, (s.backingInfo b).note = some n → n < s.nextNote
  anonymous : ∀ b < s.nextBacking, (s.backingInfo b).kind = .anonPrivate →
    (s.backingInfo b).note = none
  spaces : ∀ i < s.nextSpace, s.SpaceOk (spaces i)

/-- Spaces that were there before have the cookies they had, or newer ones, and notes the rights
they had. -/
structure Later (s s' : Sys) : Prop where
  nextSpace : s.nextSpace ≤ s'.nextSpace
  space : ∀ i < s.nextSpace, (s.space i).Later (s'.space i)
  nextNote : s.nextNote ≤ s'.nextNote
  noteInfo : ∀ n < s.nextNote, s'.noteInfo n = s.noteInfo n

/-- The spaces and notes are as they were; backings may have come and gone. -/
structure Kept (s s' : Sys) : Prop where
  space : s'.space = s.space
  nextSpace : s'.nextSpace = s.nextSpace
  noteInfo : s'.noteInfo = s.noteInfo
  noteSize : s'.noteSize = s.noteSize
  nextNote : s'.nextNote = s.nextNote

/-- What the mappings rely on is still there. -/
structure Extends (s s' : Sys) : Prop where
  nextBacking : s.nextBacking ≤ s'.nextBacking
  backingInfo : ∀ b < s.nextBacking, s'.backingInfo b = s.backingInfo b
  note : ∀ b < s.nextBacking, 0 < s.backingRefs b → ∀ n, (s.backingInfo b).note = some n →
    s'.noteInfo n = s.noteInfo n ∧ s.noteSize n ≤ s'.noteSize n

end Sys

/-! ## Cookies and bindings -/

namespace Space

variable {c c' c'' : Space} {ranges : List Vma} {k : ℕ}

theorem Later.refl (c : Space) : Later c c := ⟨le_rfl, fun _ hβ _ ↦ hβ⟩

theorem Later.trans (h : Later c c') (h' : Later c' c'') : Later c c'' :=
  ⟨h.next.trans h'.next, fun β hβ hlt ↦ h.old β (h'.old β hβ (hlt.trans_le h.next)) hlt⟩

theorem Alike.later (h : Alike c c') : Later c c' :=
  ⟨h.nextMappingCookie.ge, fun β hβ _ ↦ by rwa [h.bindings] at hβ⟩

theorem Alike.backings (h : Alike c c') : c'.backings = c.backings := by
  rw [Space.backings, Space.backings, h.bindings]

theorem occurs_iff (h : Ordered ranges) :
    Occurs ranges k ↔ ∃ v ∈ ranges, v.mappingCookie = k := by
  constructor
  · rintro ⟨a, x, hx, rfl⟩
    obtain ⟨v, hv, -, rfl⟩ := h.viewAt_iff.1 hx
    exact ⟨v, hv, rfl⟩
  · rintro ⟨v, hv, rfl⟩
    have hlt := (h.valid v hv).lt
    exact ⟨v.start, v.view v.start, h.viewAt_iff.2 ⟨v, hv, contains_iff.2 ⟨le_rfl, hlt⟩, rfl⟩, rfl⟩

theorem containsCookie_iff {t : VmaSnapshot} (h : t.Good) :
    t.containsCookie k = true ↔ k ≠ 0 ∧ Occurs t.ranges k := by
  rw [occurs_iff h.ordered, VmaSnapshot.containsCookie, Bool.and_eq_true, List.any_eq_true]
  simp only [decide_eq_true_eq]

end Space

namespace Binding

variable {β : Binding} {bindings : List Binding} {t : VmaSnapshot} {k : ℕ}

theorem find_eq (hnodup : (bindings.map Binding.cookie).Nodup) (hβ : β ∈ bindings) :
    find β.cookie bindings = some β := by
  induction bindings with
  | nil => cases hβ
  | cons γ rest ih =>
    rw [List.map_cons, List.nodup_cons] at hnodup
    rw [find, List.find?_cons]
    rcases List.mem_cons.1 hβ with rfl | hmem
    · simp
    · have hne : γ.cookie ≠ β.cookie := fun heq ↦
        hnodup.1 (heq ▸ List.mem_map_of_mem hmem)
      simp only [hne, decide_false]
      exact ih hnodup.2 hmem

theorem mem_of_find (h : find k bindings = some β) : β ∈ bindings ∧ β.cookie = k :=
  ⟨List.mem_of_find?_eq_some h,
    of_decide_eq_true (List.find?_some (p := fun b : Binding ↦ decide (b.cookie = k)) h)⟩

theorem prune_backings (bindings : List Binding) (t : VmaSnapshot) :
    (↑((prune bindings t).1.map Binding.backing) : Multiset BackingId) +
      ↑((prune bindings t).2.map Binding.backing) = ↑(bindings.map Binding.backing) := by
  have hsplit := List.filter_append_perm (fun b : Binding ↦ t.containsCookie b.cookie) bindings
  rw [Multiset.coe_add, Multiset.coe_eq_coe, ← List.map_append]
  refine List.Perm.map _ (List.Perm.trans ?_ hsplit)
  exact List.Perm.append_left _ (List.reverse_perm _)

end Binding

/-! ## The state that mappings rely on -/

namespace Sys

variable {s s' s'' : Sys} {sp : SpaceId → Space} {c c' : Space} {owed owed' : Multiset BackingId}
  {b : BackingId} {n : NoteId} {x : View} {i : SpaceId}

theorem Later.refl (s : Sys) : Later s s :=
  ⟨le_rfl, fun _ _ ↦ .refl _, le_rfl, fun _ _ ↦ rfl⟩

theorem Later.trans (h : Later s s') (h' : Later s' s'') : Later s s'' :=
  ⟨h.nextSpace.trans h'.nextSpace, fun i hi ↦
    (h.space i hi).trans (h'.space i (hi.trans_le h.nextSpace)),
    h.nextNote.trans h'.nextNote, fun n hn ↦
    (h'.noteInfo n (hn.trans_le h.nextNote)).trans (h.noteInfo n hn)⟩

theorem Kept.refl (s : Sys) : Kept s s := ⟨rfl, rfl, rfl, rfl, rfl⟩

theorem Kept.trans (h : Kept s s') (h' : Kept s' s'') : Kept s s'' :=
  ⟨h'.space.trans h.space, h'.nextSpace.trans h.nextSpace, h'.noteInfo.trans h.noteInfo,
    h'.noteSize.trans h.noteSize, h'.nextNote.trans h.nextNote⟩

theorem Same.kept (h : Same s s') : Kept s s' :=
  ⟨h.space, h.nextSpace, h.noteInfo, h.noteSize, h.nextNote⟩

theorem Kept.extend (h : Kept s s') (hnext : s.nextBacking ≤ s'.nextBacking)
    (hinfo : ∀ b < s.nextBacking, s'.backingInfo b = s.backingInfo b) : Extends s s' :=
  ⟨hnext, hinfo, fun _ _ _ n _ ↦ ⟨congrFun h.noteInfo n, (congrFun h.noteSize n).ge⟩⟩

theorem Backs.extend (h : s.Backs b x) (hext : Extends s s') (hb : b < s.nextBacking)
    (hlive : 0 < s.backingRefs b) : s'.Backs b x := by
  have hinfo := hext.backingInfo b hb
  refine ⟨by rw [hinfo]; exact h.shared, fun n hn ↦ ?_, fun n hn ↦ ?_⟩ <;> rw [hinfo] at hn <;>
    obtain ⟨hrights, hsize⟩ := hext.note b hb hlive n hn
  · rw [hrights]
    exact h.rights n hn
  · exact (h.offset n hn).trans_le hsize

theorem SpaceOk.extend (h : s.SpaceOk c) (hext : Extends s s')
    (hlive : ∀ β ∈ c.bindings, 0 < s.backingRefs β.backing) : s'.SpaceOk c where
  good := h.good
  nodup := h.nodup
  bound := by
    intro a x hx
    obtain ⟨β, hβ, hcookie, hbacks⟩ := h.bound a x hx
    exact ⟨β, hβ, hcookie, hbacks.extend hext (h.backing β hβ) (hlive β hβ)⟩
  used := h.used
  cookie := h.cookie
  next := h.next
  backing := fun β hβ ↦ (h.backing β hβ).trans_le hext.nextBacking

theorem SpaceOk.alike (h : s.SpaceOk c) (halike : Space.Alike c c') : s.SpaceOk c' := by
  obtain ⟨hsnapshot, hbindings, hnext⟩ := halike
  exact ⟨by rw [hsnapshot]; exact h.good, by rw [hbindings]; exact h.nodup,
    by rw [hsnapshot, hbindings]; exact h.bound, by rw [hsnapshot, hbindings]; exact h.used,
    by rw [hbindings, hnext]; exact h.cookie, by rw [hnext]; exact h.next,
    by rw [hbindings]; exact h.backing⟩

/-! ## Counts -/

theorem mem_liveBackings : b ∈ s.liveBackings n ↔
    b < s.nextBacking ∧ 0 < s.backingRefs b ∧ (s.backingInfo b).note = some n := by
  simp [liveBackings]

namespace Tidy

theorem live_of_binding (h : Tidy s sp owed) (hi : i < s.nextSpace) {β : Binding}
    (hβ : β ∈ (sp i).bindings) : 0 < s.backingRefs β.backing := by
  refine h.refs.pos (Multiset.mem_add.2 (.inl ?_))
  refine Multiset.mem_of_le (Tally.le_sum (f := fun i ↦ (sp i).backings) (Finset.mem_range.2 hi)) ?_
  exact Multiset.mem_coe.2 (List.mem_map_of_mem hβ)

theorem live_of_owed (h : Tidy s sp owed) (hb : b ∈ owed) : 0 < s.backingRefs b :=
  h.refs.pos (Multiset.mem_add.2 (.inr hb))

theorem active_pos (h : Tidy s sp owed) (hb : b < s.nextBacking) (hlive : 0 < s.backingRefs b)
    (hn : (s.backingInfo b).note = some n) : 0 < s.activeMappings n := by
  rw [h.active]
  exact Finset.card_pos.2 ⟨b, mem_liveBackings.2 ⟨hb, hlive, hn⟩⟩

theorem extend (h : Tidy s sp owed) (hext : Extends s s') (hspace : s'.nextSpace = s.nextSpace)
    (hnote : s.nextNote ≤ s'.nextNote)
    (hrefs : Tally.Tallies s'.backingRefs
      (∑ i ∈ Finset.range s.nextSpace, (sp i).backings + owed'))
    (howed : ∀ b ∈ owed', b < s'.nextBacking)
    (hactive : ∀ n, s'.activeMappings n = (s'.liveBackings n).card)
    (hnew : ∀ b < s'.nextBacking, b < s.nextBacking ∨
      ((∀ n, (s'.backingInfo b).note = some n → n < s'.nextNote) ∧
        ((s'.backingInfo b).kind = .anonPrivate → (s'.backingInfo b).note = none))) :
    Tidy s' sp owed' where
  refs := by rw [hspace]; exact hrefs
  owed := howed
  active := hactive
  note := by
    intro b hb n hn
    rcases hnew b hb with hb | hb
    · rw [hext.backingInfo b hb] at hn
      exact (h.note b hb n hn).trans_le hnote
    · exact hb.1 n hn
  anonymous := by
    intro b hb hkind
    rcases hnew b hb with hb | hb
    · rw [hext.backingInfo b hb] at hkind ⊢
      exact h.anonymous b hb hkind
    · exact hb.2 hkind
  spaces := by
    intro i hi
    rw [hspace] at hi
    exact (h.spaces i hi).extend hext fun β hβ ↦ h.live_of_binding hi hβ

theorem liveBackings_eq (hinfo : ∀ b < s.nextBacking, s'.backingInfo b = s.backingInfo b)
    (hrefs : ∀ b < s.nextBacking, 0 < s'.backingRefs b ↔ 0 < s.backingRefs b)
    (hnext : s'.nextBacking = s.nextBacking) (n : NoteId) :
    s'.liveBackings n = s.liveBackings n := by
  ext b
  simp only [mem_liveBackings, hnext]
  refine and_congr_right fun hb ↦ ?_
  rw [hinfo b hb, hrefs b hb]

theorem same (h : Tidy s sp owed) (hsame : Same s s') : Tidy s' sp owed := by
  have hinfo : ∀ b < s.nextBacking, s'.backingInfo b = s.backingInfo b := fun b _ ↦
    congrFun hsame.backingInfo b
  refine h.extend (hsame.kept.extend hsame.nextBacking.ge hinfo) hsame.nextSpace
    hsame.nextNote.ge (hsame.backingRefs ▸ h.refs) (hsame.nextBacking ▸ h.owed) (fun n ↦ ?_)
    fun b hb ↦ .inl (hsame.nextBacking ▸ hb)
  rw [liveBackings_eq hinfo (fun b _ ↦ by rw [hsame.backingRefs]) hsame.nextBacking,
    hsame.activeMappings]
  exact h.active n

/-- Whoever has the lock of a space changes its bindings, and owes the difference. -/
theorem put (h : Tidy s sp owed) (hi : i < s.nextSpace) (hc : s.SpaceOk c)
    (hbackings : c.backings + owed' = (sp i).backings + owed) :
    Tidy s (Function.update sp i c) owed' where
  refs := by
    refine h.refs.congr (fun _ ↦ rfl) ?_
    have hsum := Tally.sum_change (f := fun j ↦ (Function.update sp i c j).backings)
      (g := fun j ↦ (sp j).backings) (Finset.mem_range.2 hi)
      (fun j hj ↦ by simp only [Function.update_of_ne hj])
    simp only [Function.update_self] at hsum
    refine add_right_cancel (b := (sp i).backings) ?_
    rw [add_right_comm, hsum, add_assoc, hbackings, add_right_comm, add_assoc]
  owed := by
    intro b hb
    have hmem : b ∈ (sp i).backings + owed := hbackings ▸ Multiset.mem_add.2 (.inr hb)
    rcases Multiset.mem_add.1 hmem with hmem | hmem
    · obtain ⟨β, hβ, rfl⟩ := List.mem_map.1 (Multiset.mem_coe.1 hmem)
      exact (h.spaces i hi).backing β hβ
    · exact h.owed b hmem
  active := h.active
  note := h.note
  anonymous := h.anonymous
  spaces := by
    intro j hj
    by_cases hji : j = i
    · rw [hji, Function.update_self]
      exact hc
    · rw [Function.update_of_ne hji]
      exact h.spaces j hj

end Tidy

end Sys

end MiniMM
