import MiniMM.Binding.Reach
import MiniMM.Calls.Brk
import MiniMM.Lib.Decide
import MiniMM.PageRemap

/-!
# When a page is remapped

A call makes a space, maps the whole note there and replaces the first page of the mapping. Each
of its allocations is needed but one, which retires the first snapshot. The lemmas run the calls on
the way exactly, up to the last allocation that can fail.
-/

namespace MiniMM

open Code

/-! ## Exact runs -/

/-- What a call that works on a note in a space of its own can see of the state. -/
structure Sight where
  alloc : ℕ → Bool
  tlbEntries : ℕ
  info : NoteInfo
  size : ℕ
  active : ℕ
  backing : BackingId
  nextSpace : SpaceId
  space : Space

namespace Sight

/-- After `m` allocations. -/
def after (v : Sight) (m : ℕ) : Sight := { v with alloc := fun k ↦ v.alloc (k + m) }

/-- After the note has been attached to a new backing. -/
def attached (v : Sight) : Sight := { v with active := v.active + 1, backing := v.backing + 1 }

/-- The next `m` allocations succeed. -/
def Grants (v : Sight) (m : ℕ) : Prop := ∀ k < m, v.alloc k = true

theorem grants_add {v : Sight} (m k : ℕ) :
    v.Grants m ∧ (v.after m).Grants k ↔ v.Grants (m + k) := by
  constructor
  · rintro ⟨h, h'⟩ j hj
    rcases lt_or_ge j m with hlt | hge
    · exact h j hlt
    · exact Nat.sub_add_cancel hge ▸ h' (j - m) (by omega)
  · exact fun h ↦ ⟨fun j hj ↦ h j (by omega), fun j hj ↦ h (j + m) (by omega)⟩

end Sight

def Sys.sight (s : Sys) (n : NoteId) (i : SpaceId) : Sight where
  alloc := s.store.host.alloc
  tlbEntries := s.tlbEntries
  info := s.noteInfo n
  size := s.noteSize n
  active := s.activeMappings n
  backing := s.nextBacking
  nextSpace := s.nextSpace
  space := s.space i

namespace Code

/-- Where `v` is seen the code fails if not `C`, and else leaves what `Q` says. -/
def Goes {α : Type} (n : NoteId) (i : SpaceId) (p : Code α) (v : Sight) (C : Prop)
    (B : α → Prop) (Q : α → Sys → Prop) : Prop :=
  ∀ s : Sys, s.sight n i = v → Prog.Decides (fun o s ↦ s.exec o) p s C B Q

/-- The code has returned `x`, and `v` is seen. -/
def To {α : Type} (n : NoteId) (i : SpaceId) (x : α) (v : Sight) (r : α) (s : Sys) : Prop :=
  r = x ∧ s.sight n i = v

variable {α β : Type} {n : NoteId} {i : SpaceId} {v w : Sight} {p q : Code α} {f : α → Code β}
  {C D : Prop} {B : α → Prop} {E : β → Prop} {x : α} {y : β} {s : Sys} {Q : α → Sys → Prop}
  {R : β → Sys → Prop}

theorem returns_ends {Q : α → Prop} (h : Returns p Q) : Ends p s fun a _ ↦ Q a :=
  fun _ _ hrun ↦ h.result hrun

theorem goes_pure (x : α) : Goes n i (pure x) v True B (To n i x v) :=
  fun _ hs ↦ (Prog.ends_pure ⟨rfl, hs⟩).accepts trivial

theorem goes_ite {c : Prop} [Decidable c] (hp : c → Returns p B) (hq : ¬c → Goes n i q v C B Q) :
    Goes n i (if c then p else q) v (¬c ∧ C) B Q :=
  fun s hs ↦ Prog.decides_ite (fun hc ↦ returns_ends (hp hc)) fun hc ↦ hq hc s hs

namespace Goes

theorem congr (h : Goes n i p v C B Q) (hc : C ↔ D) : Goes n i p v D B Q :=
  fun s hs ↦ (h s hs).congr hc

theorem mono {Q' : α → Sys → Prop} (h : Goes n i p v C B Q) (hQ : ∀ r s, Q r s → Q' r s) :
    Goes n i p v C B Q' :=
  fun s hs ↦ Prog.Ends.mono (h s hs) fun r s' ↦ .imp_left fun h ↦ ⟨h.1, hQ r s' h.2⟩

theorem bindIf (h : Goes n i p v C B (To n i x w)) (hf : C → Goes n i (f x) w D E R)
    (hbad : ∀ a, B a → Returns (f a) E) : Goes n i (p >>= f) v (C ∧ D) E R := by
  refine fun s hs ↦ (h s hs).bind ?_ fun a s' ha ↦ returns_ends (hbad a ha)
  rintro hc _ s' ⟨rfl, hs'⟩
  exact hf hc s' hs'

theorem bind (h : Goes n i p v C B (To n i x w)) (hf : Goes n i (f x) w D E R)
    (hbad : ∀ a, B a → Returns (f a) E) : Goes n i (p >>= f) v (C ∧ D) E R :=
  h.bindIf (fun _ ↦ hf) hbad

/-- The second part cannot fail. -/
theorem seq (h : Goes n i p v C B (To n i x w)) (hf : Goes n i (f x) w True E R)
    (hbad : ∀ a, B a → Returns (f a) E) : Goes n i (p >>= f) v C E R :=
  (h.bind hf hbad).congr (and_iff_left trivial)

/-- The first part cannot fail. -/
theorem next (h : Goes n i p v True (fun _ ↦ False) (To n i x w))
    (hf : Goes n i (f x) w C E R) : Goes n i (p >>= f) v C E R :=
  (h.bind hf fun _ ↦ False.elim).congr (and_iff_right trivial)

end Goes

/-! ## Steps -/

theorem goes_step {o : Sys.Op α}
    (ho : ∀ s : Sys, s.sight n i = v → ∀ r s', s.exec o = .ok r s' → r = x ∧ s'.sight n i = w) :
    Goes n i (.step o) v True B (To n i x w) :=
  fun s hs ↦ (Prog.ends_step (ho s hs)).accepts trivial

/-- A step whose answer does not matter, and that changes nothing the call sees. -/
theorem goes_quiet {o : Sys.Op α}
    (ho : ∀ (s : Sys) r s', s.exec o = .ok r s' → s'.sight n i = s.sight n i)
    (hf : ∀ r, Goes n i (f r) v C E R) : Goes n i (.step o >>= f) v C E R := by
  refine fun s hs ↦ Prog.Ends.bind (Prog.ends_step fun r s' h ↦ (ho s r s' h).trans hs) ?_
  exact fun r s' hs' ↦ hf r s' hs'

theorem sight_lock {l : LockId} {s' : Sys} {r : α} (h : s.lock l x = .ok r s') :
    r = x ∧ s'.sight n i = s.sight n i := by
  obtain ⟨-, rfl, rfl⟩ := Sys.lock_ok h
  exact ⟨rfl, rfl⟩

/-- An allocation whose failure changes nothing. -/
theorem goes_malloc_any {g : Bool → Code β} (hf : ∀ b, Goes n i (g b) (v.after 1) C E R) :
    Goes n i (malloc >>= g) v C E R := by
  rintro s rfl
  exact ends_exec rfl (hf _ _ rfl)

theorem sight_unlocked {c : Space} :
    (Space.unlocked i c s).sight n i = { s.sight n i with space := c } := by
  simp [Sys.sight, Space.unlocked]

theorem goes_malloc : Goes n i malloc v (v.Grants 1) (· = false) (To n i true (v.after 1)) := by
  rintro s rfl
  refine Prog.ends_step fun b s' hexec ↦ ?_
  cases hexec
  have hgrants : (s.sight n i).Grants 1 ↔ s.store.host.alloc 0 = true := by
    simp [Sight.Grants, Sys.sight]
  rw [hgrants]
  cases hb : s.store.host.alloc 0 with
  | true => exact .inl ⟨rfl, hb, rfl⟩
  | false => exact .inr ⟨Bool.noConfusion, hb⟩

end Code

namespace PageRemap

open Vma

variable {α : Type} {n : NoteId} {i : SpaceId} {v w : Sight} {s : Sys} {C : Prop}
  {length generation : ℕ}

/-- An answer without a result. -/
def Failed {β : Type} (r : Status × Option β) : Prop := r.1 ≠ .ok ∧ r.2 = none

theorem goes_allocateAll (m : ℕ) :
    Goes n i (Space.allocateAll m) v (v.Grants m) (· = false) (To n i true (v.after m)) := by
  induction m generalizing v with
  | zero => exact (goes_pure true).congr (iff_of_true trivial fun k hk ↦ absurd hk k.not_lt_zero)
  | succ m ih =>
    refine Goes.congr (goes_malloc.bind ih ?_) (Nat.add_comm 1 m ▸ Sight.grants_add 1 m)
    rintro _ rfl
    exact rfl

/-! ## Spaces and backings -/

theorem goes_create (hi : v.nextSpace = i) :
    Goes n i Space.create v (v.Grants 7 ∧ v.tlbEntries ≠ 0) Failed
      (To n i (.ok, some i) { v.after 7 with nextSpace := i + 1, space := .new }) := by
  have hlocked : Goes n i Space.createLocked v
      (v.Grants 3 ∧ ¬decide (v.tlbEntries ≠ 0) = false ∧ (v.after 3).Grants 4) Failed
      (To n i (.ok, some i) { v.after 7 with nextSpace := i + 1, space := .new }) := by
    refine (goes_allocateAll 3).bind (Goes.next (goes_step fun s hs r s' h ↦ ?_)
      (goes_ite (fun _ ↦ ?_) fun _ ↦ (goes_allocateAll 4).seq (Goes.next (goes_step (x := i)
        (w := { v.after 7 with nextSpace := i + 1, space := .new }) fun s hs r s' h ↦ ?_)
        (goes_pure _)) ?_)) ?_
    · cases h
      exact ⟨congrArg (fun v ↦ decide (v.tlbEntries ≠ 0)) hs, hs⟩
    · exact ⟨Status.noConfusion, rfl⟩
    · obtain rfl : s.nextSpace = i := (congrArg Sight.nextSpace hs).trans hi
      cases h
      have hsight := congrArg (fun u : Sight ↦
        { u with nextSpace := s.nextSpace + 1, space := Space.new }) hs
      exact ⟨rfl, by simpa [Sys.sight, Sight.after] using hsight⟩
    · rintro _ rfl
      exact ⟨Status.noConfusion, rfl⟩
    · rintro _ rfl
      exact ⟨Status.noConfusion, rfl⟩
  refine (hlocked.seq (Goes.next (x := ()) (goes_step fun s hs r s' h ↦ ?_)
    (goes_quiet ?_ fun _ ↦ goes_pure _)) ?_).congr ?_
  · cases h
    exact ⟨rfl, sight_unlocked.trans (congrArg (fun u : Sight ↦ { u with space := .new }) hs)⟩
  · intro s r s' h
    cases h
    rfl
  · rintro ⟨status, _⟩ ⟨hbad, rfl⟩
    exact ⟨hbad, rfl⟩
  · rw [← Sight.grants_add 3 4, decide_eq_false_iff_not, not_not]
    tauto

theorem goes_mappingAttach :
    Goes n i (Note.mappingAttach n) v (v.active ≠ sizeMax) (· ≠ .ok)
      (To n i .ok { v with active := v.active + 1 }) := by
  refine goes_quiet (fun s r s' h ↦ by cases h; rfl) fun _ ↦
    goes_quiet (fun s r s' h ↦ (sight_lock h).2) fun _ ↦ Goes.next (x := v.active) (w := v)
    (goes_step fun s hs r s' h ↦ ?_) (Goes.congr (goes_ite (fun _ ↦ ?_) fun _ ↦
      Goes.next (x := ()) (w := { v with active := v.active + 1 })
        (goes_step fun s hs r s' h ↦ ?_) (goes_quiet ?_ fun _ ↦ goes_pure _))
      (and_iff_left trivial))
  · cases h
    exact ⟨congrArg Sight.active hs, hs⟩
  · exact Returns.seq fun _ ↦ Status.noConfusion
  · subst hs
    cases h
    simp [Sys.sight]
  · intro s r s' h
    cases h
    rfl

theorem goes_backingCreate {flags : MapFlags} (hflags : flags.anonymous = false) :
    Goes n i (Backing.create (some n) flags) v (v.Grants 1 ∧ v.active ≠ sizeMax) (·.1 ≠ .ok)
      (To n i (.ok, v.backing) (v.after 1).attached) := by
  rw [Backing.create, if_neg (by simp [hflags])]
  refine goes_malloc.bind (goes_mappingAttach.seq (goes_quiet ?_ fun _ ↦ Goes.next
    (x := v.backing) (w := (v.after 1).attached) (goes_step fun s hs r s' h ↦ ?_) (goes_pure _))
    ?_) ?_
  · intro s r s' h
    rw [Sys.exec, Sys.countUp] at h
    split at h <;> cases h
    rfl
  · cases h
    have hsight := congrArg (fun u : Sight ↦ { u with backing := u.backing + 1 }) hs
    exact ⟨congrArg Sight.backing hs, hsight⟩
  · intro status hbad
    rw [if_pos hbad]
    exact hbad
  · rintro _ rfl
    exact Status.noConfusion

/-- What the call asks for before it does anything. -/
structure Checked (info : NoteInfo) (size noteOffset : ℕ) : Prop where
  aligned : noteOffset % pageSize = 0
  inside : noteOffset + pageSize ≤ size
  rights : info.rights.read = true ∧ info.rights.write = true ∧ info.rights.share = true

theorem Checked.pos {info : NoteInfo} {size noteOffset : ℕ} (h : Checked info size noteOffset) :
    0 < size :=
  Nat.lt_of_lt_of_le (by decide) ((Nat.le_add_left _ _).trans h.inside)

/-- What both requests have in common, and the rights they need. -/
structure Asks (info : NoteInfo) (n : NoteId) (args : MmapArgs) : Prop where
  note : args.note = some n
  flags : args.flags.anonymous = false ∧ args.flags.shared = true
  valid : Space.mappingFlagsAreValid args.flags = true ∧ args.protection.isValid = true
  maximum : args.maximumProtection ≠ .none ∧ args.maximumProtection.isValid = true ∧
    args.protection.within args.maximumProtection = true ∧ args.maximumProtection.edit = false
  aligned : args.noteOffset % pageSize = 0
  rights : info.rights.read = true ∧ info.rights.write = true ∧ info.rights.share = true

theorem goes_validateBacking {args : MmapArgs} (hasks : Asks v.info n args) (length : ℕ) :
    Goes n i (Space.mappingValidateBacking args length args.maximumProtection) v
      (args.noteOffset + length ≤ v.size) (· ≠ .ok) (To n i .ok v) := by
  rintro s rfl
  obtain ⟨hread, hwrite, hshare⟩ := hasks.rights
  rw [Space.mappingValidateBacking, if_neg (by simp [hasks.flags.1]), hasks.note]
  dsimp only
  rw [if_neg (not_not.2 hasks.aligned)]
  refine ends_exec rfl ?_
  rw [if_neg]
  · refine ends_exec rfl ?_
    by_cases hle : args.noteOffset + length ≤ (s.sight n i).size
    · rw [if_neg (by simp only [Sys.sight] at hle; omega)]
      exact (Prog.ends_pure ⟨rfl, rfl⟩).accepts hle
    · rw [if_pos (by simp only [Sys.sight] at hle; omega)]
      exact Prog.Ends.refuses (Prog.ends_pure Status.noConfusion) hle
  · simp only [Sys.sight] at hread hwrite hshare
    simp [hread, hwrite, hshare, hasks.maximum.2.2.2]

theorem goes_bindingCreate :
    Goes n i Binding.create v (v.Grants 1) (· ≠ .ok) (To n i .ok (v.after 1)) := by
  refine goes_malloc.seq (goes_pure _) ?_
  rintro _ rfl
  exact Status.noConfusion

theorem goes_withLock {busy : α} {body : Space → Code (α × Space)} {B : α → Prop}
    {Q : α × Space → Sys → Prop} (hopen : v.space.closing = false)
    (hbody : Goes n i (body v.space) v C (B ·.1) Q) :
    Goes n i (Space.withLock i busy body) v C B fun r s ↦
      ∃ c s', Q (r, c) s' ∧ s = Space.unlocked i c s' := by
  refine Goes.next (x := v.space) (w := v) (goes_step fun s hs r s' h ↦ ?_) ?_
  · obtain ⟨rfl, hs'⟩ := sight_lock (n := n) (i := i) h
    exact ⟨congrArg Sight.space hs, hs'.trans hs⟩
  · rw [if_neg (by simp [hopen])]
    refine fun s hs ↦ (hbody s hs).seq (fun r s' hQ ↦ ?_) fun r s' hbad ↦ ?_
    · exact ends_exec rfl (Prog.ends_pure ⟨r.2, s', hQ, rfl⟩)
    · exact ends_exec rfl (Prog.ends_pure hbad)

theorem goes_withLock_to {busy x : α} {body : Space → Code (α × Space)} {B : α → Prop} {c : Space}
    (hopen : v.space.closing = false)
    (hbody : Goes n i (body v.space) v C (B ·.1) (To n i (x, c) w)) :
    Goes n i (Space.withLock i busy body) v C B (To n i x { w with space := c }) := by
  refine (goes_withLock hopen hbody).mono ?_
  rintro r s ⟨c', s', ⟨hr, rfl⟩, rfl⟩
  cases hr
  exact ⟨rfl, sight_unlocked⟩

theorem goes_query {address : ℕ} {u : Vma} (hopen : v.space.closing = false)
    (haddress : address < userAddressLimit) (hu : v.space.vmaSnapshot.lookup address = some u) :
    Goes n i (Space.mappingQuery i address) v True (fun _ ↦ False)
      (To n i (.ok, some (Space.mappingInfo u)) v) := by
  rw [Space.mappingQuery, if_neg haddress.not_ge]
  refine goes_withLock_to (c := v.space) (w := v) hopen ?_
  rw [hu]
  exact goes_pure _

/-! ## Snapshots -/

/-- A snapshot of so few ranges that its tree is a leaf. -/
def flat (ranges : List Vma) (generation : ℕ) : VmaSnapshot :=
  ⟨ranges, if ranges.isEmpty then none else some ⟨0, ranges⟩, generation⟩

/-- The allocations that take one. -/
def flatCost (ranges : List Vma) : ℕ := if ranges.isEmpty then 1 else 3

theorem goes_ofRanges {ranges : List Vma} (hfew : ranges.length ≤ 2)
    (hmerge : VmaSnapshot.coalesceRanges ranges = ranges) (generation : ℕ) :
    Goes n i (VmaSnapshot.ofRanges ranges.length (some ranges) generation) v
      (v.Grants (flatCost ranges)) Failed
      (To n i (.ok, some (flat ranges generation)) (v.after (flatCost ranges))) := by
  cases ranges with
  | nil =>
    refine goes_malloc.seq (goes_pure _) ?_
    rintro _ rfl
    exact ⟨Status.noConfusion, rfl⟩
  | cons u rest =>
    have hmany : ¬(u :: rest).length > sizeMax / VmaSnapshot.vmaSize :=
      (hfew.trans (by decide)).not_gt
    have hheight : vmaTreeHeight (u :: rest).length 64 vmaTreeFanout 0 = some 0 :=
      if_neg (hfew.trans (by decide)).not_gt
    have hnode : Goes n i (vmaTreeBuildNode 0 (u :: rest)) ((v.after 1).after 1)
        (((v.after 1).after 1).Grants 1) (· = none)
        (To n i (some (u :: rest)) (((v.after 1).after 1).after 1)) := by
      refine goes_malloc.seq (goes_pure _) ?_
      rintro _ rfl
      exact rfl
    have htree : Goes n i (vmaTreeBuild (u :: rest)) ((v.after 1).after 1)
        (((v.after 1).after 1).Grants 1) (·.1 ≠ .ok)
        (To n i (.ok, some ⟨0, u :: rest⟩) (((v.after 1).after 1).after 1)) := by
      rw [vmaTreeBuild, if_neg (by simp), hheight]
      refine hnode.seq (goes_pure _) ?_
      rintro _ rfl
      exact Status.noConfusion
    have hfrom : Goes n i (VmaSnapshot.fromRanges (u :: rest) generation) (v.after 1)
        ((v.after 1).Grants 1 ∧ ((v.after 1).after 1).Grants 1) Failed
        (To n i (.ok, some (flat (u :: rest) generation)) (((v.after 1).after 1).after 1)) := by
      refine goes_malloc.bind ?_ ?_
      · simp only [hmerge]
        exact htree.seq (goes_pure _) fun r hbad ↦ ⟨hbad, if_neg hbad⟩
      · rintro _ rfl
        exact ⟨Status.noConfusion, rfl⟩
    rw [VmaSnapshot.ofRanges, VmaSnapshot.allocateRanges, if_neg (by simp), if_neg hmany]
    refine (goes_bindingCreate.bind hfrom fun status hbad ↦ ?_).congr ?_
    · rw [if_pos hbad]
      exact ⟨hbad, rfl⟩
    · rw [Sight.grants_add, Sight.grants_add]
      rfl

theorem goes_insert {u : Vma} {ranges : List Vma} (hvalid : u.isValid = true)
    (hfew : ranges.length ≤ 1) (hgeneration : generation ≠ sizeMax)
    (hbefore : ∀ w ∈ ranges, u.start < w.start ∧ u.stop ≤ w.start ∧
      u.mappingCookie ≠ w.mappingCookie) :
    Goes n i ((flat ranges generation).insert u) v (v.Grants 3) Failed
      (To n i (.ok, some (flat (u :: ranges) (generation + 1))) (v.after 3)) := by
  have hinsert : (flat ranges generation).insert u =
      VmaSnapshot.ofRanges (u :: ranges).length (some (u :: ranges)) (generation + 1) ∧
      VmaSnapshot.coalesceRanges (u :: ranges) = u :: ranges := by
    have hnil : 0 ≠ sizeMax := by decide
    have hone : 1 ≠ sizeMax := by decide
    rcases ranges with _ | ⟨w, _ | _⟩
    · simp [VmaSnapshot.insert, VmaSnapshot.nextSnapshot, flat, hvalid, hgeneration, hnil,
        Search.partitionPoint, Search.loop, VmaSnapshot.coalesceRanges, VmaSnapshot.coalesceStep]
    · obtain ⟨hstart, hstop, hcookie⟩ := hbefore w (List.mem_singleton_self w)
      simp [VmaSnapshot.insert, VmaSnapshot.nextSnapshot, flat, hvalid, hgeneration, hone,
        Search.partitionPoint, Search.loop, VmaSnapshot.coalesceRanges, VmaSnapshot.coalesceStep,
        hstart.not_gt, hstop.not_gt, canMerge, hcookie]
    · cases Nat.not_succ_le_zero _ (Nat.le_of_succ_le_succ hfew)
  have hlength : (u :: ranges).length ≤ 2 := Nat.succ_le_succ hfew
  rw [hinsert.1]
  exact goes_ofRanges hlength hinsert.2 _

/-- What is behind the first page of a range. -/
def behind (u : Vma) : List Vma :=
  if u.start + pageSize < u.stop then
    [{ u with start := u.start + pageSize, noteOffset := u.noteOffset + pageSize }]
  else []

theorem behind_few (u : Vma) : (behind u).length ≤ 1 := by
  rw [behind]
  split <;> simp

theorem mem_behind {u w : Vma} (hw : w ∈ behind u) :
    w.start = u.start + pageSize ∧ w.mappingCookie = u.mappingCookie := by
  rw [behind] at hw
  split_ifs at hw
  · obtain rfl := List.mem_singleton.1 hw
    exact ⟨rfl, rfl⟩
  · cases hw

theorem goes_replaceRange {u w : Vma} (hlive : u.start < u.stop) (hw : w.isValid = true)
    (hstart : w.start = u.start) (hstop : w.stop = u.start + pageSize)
    (hcookie : w.mappingCookie ≠ u.mappingCookie) (hoffset : u.noteOffset = 0) :
    Goes n i (Space.replaceRange (flat [u] 2) w) v (v.Grants (flatCost (behind u) + 3)) Failed
      (To n i (.ok, some (flat (w :: behind u) 4)) ((v.after (flatCost (behind u))).after 3)) := by
  have hremove : (flat [u] 2).remove w.start w.stop =
      VmaSnapshot.ofRanges (behind u).length (some (behind u)) 3 := by
    have hcut : VmaSnapshot.removeFrom w.start w.stop u = (behind u).map some := by
      have hin : VmaSnapshot.apartFrom w.start w.stop u = false := by
        simp [VmaSnapshot.apartFrom, hstart, hstop, hlive, pageSize]
      rw [VmaSnapshot.removeFrom, hin, hstart, hstop, behind]
      split_ifs <;> simp_all [fragment]
    have hjoin : VmaSnapshot.joinFragments (VmaSnapshot.removeFrom w.start w.stop) [u] =
        some (behind u) := by
      rw [VmaSnapshot.joinFragments, hcut, behind]
      split_ifs <;> rfl
    have hrange : pageRangeIsValid w.start w.stop = true := by
      simp only [isValid, Bool.and_eq_true] at hw
      exact hw.1.1.1.1.1
    have hmany : ¬(behind u).length > sizeMax := ((behind_few u).trans (by decide)).not_gt
    have hgeneration : 2 ≠ sizeMax := by decide
    rw [VmaSnapshot.remove, hrange, if_neg (by decide)]
    simp [flat, hcut, hjoin, VmaSnapshot.nextSnapshot, hmany, hgeneration]
  have hmerge : VmaSnapshot.coalesceRanges (behind u) = behind u := by
    rw [behind]
    split <;> rfl
  rw [Space.replaceRange, hremove]
  refine ((goes_ofRanges ((behind_few u).trans (by decide)) hmerge 3).bind
    (goes_insert hw (behind_few u) (by decide) fun x hx ↦ ?_) ?_).congr (Sight.grants_add _ 3)
  · obtain ⟨hx, hsame⟩ := mem_behind hx
    rw [hx, hstart, hstop, hsame]
    exact ⟨Nat.lt_add_of_pos_right (by decide), le_rfl, hcookie⟩
  · rintro ⟨status, _⟩ ⟨hbad, rfl⟩
    exact ⟨hbad, rfl⟩

theorem lookup_flat {u : Vma} {ranges : List Vma} {address : ℕ} (hfew : ranges.length ≤ 1)
    (hcontains : u.start ≤ address ∧ address < u.stop) (hlimit : address < userAddressLimit)
    (hbefore : ∀ w ∈ ranges, address < w.start) :
    (flat (u :: ranges) generation).lookup address = some u := by
  rcases ranges with _ | ⟨w, _ | _⟩
  · simp [VmaSnapshot.lookup, flat, hlimit.not_ge, lookupNode, lookupLeaf, Search.partitionPoint,
      Search.loop, hcontains]
  · have hw := hbefore w (List.mem_singleton_self w)
    simp [VmaSnapshot.lookup, flat, hlimit.not_ge, lookupNode, lookupLeaf, Search.partitionPoint,
      Search.loop, hcontains, hw.not_ge]
  · cases Nat.not_succ_le_zero _ (Nat.le_of_succ_le_succ hfew)

/-! ## The requests -/

theorem goes_mmapChecked (address : ℕ) {k : ℕ} {args : MmapArgs} {R : Sys → Prop}
    (hasks : Asks v.info n args)
    (hlocked : Goes n i (Space.withLock i (.busy, addressAuto, [⟨v.backing, 0⟩])
      (Space.mmapLocked i args length args.maximumProtection v.backing)) (v.after 2).attached
      ((v.after 2).Grants k ∧ C) (·.1 ≠ .ok) fun r s ↦ (r.1, r.2.1) = (.ok, address) ∧
        Ends (Binding.listDestroy r.2.2) s fun _ s' ↦ R s') :
    Goes n i (Space.mmapChecked i args length args.maximumProtection) v
      (v.Grants (2 + k) ∧ v.active ≠ sizeMax ∧ args.noteOffset + length ≤ v.size ∧ C)
      (·.1 ≠ .ok) fun r s ↦ r = (.ok, address) ∧ R s := by
  rw [Space.mmapChecked, hasks.note]
  refine ((goes_backingCreate hasks.flags.1).bind ((goes_validateBacking
    (v := (v.after 1).attached) hasks length).bind (goes_bindingCreate.bind
      (fun s hs ↦ (hlocked s hs).seq (fun r s' h ↦ ?_) fun r s' hbad ↦ ?_)
      fun status hbad ↦ ?_) fun status hbad ↦ ?_) fun r hbad ↦ ?_).congr ?_
  · exact h.2.bind fun _ s'' hR ↦ Prog.ends_pure ⟨h.1, hR⟩
  · exact returns_ends (Returns.seq fun _ ↦ hbad)
  · rw [if_pos hbad]
    exact Returns.seq fun _ ↦ hbad
  · rw [if_neg hbad, Prog.pure_bind, if_pos hbad]
    exact Returns.seq fun _ ↦ hbad
  · obtain ⟨status, b⟩ := r
    dsimp only at hbad ⊢
    rw [if_pos hbad]
    exact hbad
  · have htwo : v.Grants 1 ∧ (v.after 1).attached.Grants 1 ↔ v.Grants 2 := Sight.grants_add 1 1
    rw [← Sight.grants_add 2 k, ← htwo]
    tauto

theorem mmap_ends {args : MmapArgs} {R : Status × ℕ → Sys → Prop} (hasks : Asks v.info n args)
    (hnone : Space.mappingAlignLength args.length = none → R (.invalidArgument, addressAuto) s)
    (hsome : ∀ length, Space.mappingAlignLength args.length = some length →
      Ends (Space.mmapChecked i args length args.maximumProtection) s R) :
    Ends (Space.mmap i args) s R := by
  have hrights : Ends (Space.rightsOf (some n)) s fun _ s' ↦ s' = s :=
    ends_exec rfl (Prog.ends_pure rfl)
  rw [Space.mmap, if_neg (by simp [hasks.valid]), hasks.note]
  refine hrights.bind ?_
  rintro rights _ rfl
  dsimp only
  rw [if_neg hasks.maximum.1, if_neg (by simp [hasks.maximum])]
  split
  · exact Prog.ends_pure (hnone ‹_›)
  · exact hsome _ ‹_›

/-! ## The first mapping -/

/-- The mapping of a whole note of that size. -/
def firstVma (size : ℕ) : Vma where
  start := 0x100000
  stop := 0x100000 + size
  mappingCookie := 1
  noteOffset := 0
  prot := { read := true, write := true }
  maxProt := writableCode
  shared := true

/-- The space that has that mapping. -/
def firstSpace (size : ℕ) (b : BackingId) : Space :=
  { Space.new with
    vmaSnapshot := flat [firstVma size] 2
    bindings := [⟨b, 1⟩]
    nextMappingCookie := 2 }

/-- What is seen when the whole note has been mapped. -/
def mapped (v : Sight) (size : ℕ) : Sight :=
  { (v.after 6).attached with space := firstSpace size v.backing }

theorem findGapAbove_new (hpos : 0 < length) (haligned : length % pageSize = 0) :
    Space.new.findGapAbove 0x100000 length =
      if 0x100000 + length ≤ userAddressLimit then (.ok, 0x100000)
      else (.noSpace, addressAuto) := by
  have hgap : VmaSnapshot.empty.findGap 0x100000 userAddressLimit length =
      if 0x100000 ≤ userAddressLimit ∧ length ≤ userAddressLimit - 0x100000 then (.ok, 0x100000)
      else (.noSpace, addressAuto) := by
    rw [VmaSnapshot.findGap, VmaSnapshot.findGapAligned, if_neg]
    · rfl
    · have hpower : 4096 &&& 4096 - 1 = 0 := by decide
      simp only [pageSize, userAddressLimit] at *
      omega
  have hsame : Space.new.findGapAbove 0x100000 length =
      VmaSnapshot.empty.findGap 0x100000 userAddressLimit length := if_neg fun h ↦ h.2 rfl
  rw [hsame, hgap]
  refine if_congr ?_ rfl rfl
  simp only [userAddressLimit]
  omega

theorem goes_mmapLocked_first {c : Space} (hnew : c = .new) (size : ℕ) (b : BackingId)
    (hpos : 0 < length) (haligned : length % pageSize = 0) :
    Goes n i (Space.mmapLocked i (applyArgs n size) length writableCode b c) v
      (v.Grants 3 ∧ 0x100000 + length ≤ userAddressLimit) (·.1.1 ≠ .ok)
      (To n i ((.ok, 0x100000, []), firstSpace length b) (v.after 4)) := by
  subst hnew
  have hplace : Goes n i (Space.new.mmapPlace (applyArgs n size) length writableCode) v
      (v.Grants 3 ∧ 0x100000 + length ≤ userAddressLimit) (fun r ↦ r.1 ≠ .ok ∧ r.2.2 = none)
      (To n i (.ok, 0x100000, some (flat [firstVma length] 2)) (v.after 3)) := by
    have hgap : Space.new.mmapPlace (applyArgs n size) length writableCode =
        Space.new.placeInGap 0x100000 length fun address ↦
          Space.mappingMakeVma (applyArgs n size) address (address + length) writableCode 1 := rfl
    rw [hgap, Space.placeInGap, findGapAbove_new hpos haligned]
    by_cases hfits : 0x100000 + length ≤ userAddressLimit
    · have hvalid : (firstVma length).isValid = true := by
        refine isValid_iff.2 ⟨?_, hfits, ?_, ?_, rfl, rfl, rfl, rfl, ?_⟩
        all_goals
          simp only [firstVma, pageSize, userAddressLimit, sizeMax] at *
          try omega
      have hinsert : Goes n i ((flat [] 1).insert (firstVma length)) v (v.Grants 3) Failed
          (To n i (.ok, some (flat [firstVma length] 2)) (v.after 3)) :=
        goes_insert hvalid (Nat.zero_le 1) (by decide) (List.forall_mem_nil _)
      rw [if_pos hfits]
      refine Goes.congr (hinsert.seq (goes_pure _) ?_) (and_iff_left hfits).symm
      exact fun r hbad ↦ hbad
    · rw [if_neg hfits]
      exact fun s _ ↦ Prog.Ends.refuses (Prog.ends_pure ⟨Status.noConfusion, rfl⟩) fun h ↦ hfits h.2
  rw [Space.mmapLocked, if_neg (by decide)]
  refine hplace.seq (goes_malloc_any fun _ ↦ goes_pure _) ?_
  rintro ⟨status, address, _⟩ ⟨hbad, rfl⟩
  exact hbad

theorem le_mappingAlignLength {size : ℕ} (h : Space.mappingAlignLength size = some length) :
    size ≤ length := by
  simp only [Space.mappingAlignLength] at h
  split_ifs at h
  cases h
  simp only [pageSize]
  omega

theorem mappingAlignLength_isSome {size : ℕ} (hpos : 0 < size) (haligned : size % pageSize = 0)
    (hfits : size ≤ userAddressLimit) : Space.mappingAlignLength size ≠ none := by
  intro h
  simp only [Space.mappingAlignLength] at h
  split_ifs at h
  all_goals
    simp only [pageSize, userAddressLimit, sizeMax] at *
    omega

/-- A note of that size can be mapped as a whole. -/
def Fits (size : ℕ) : Prop := size % pageSize = 0 ∧ 0x100000 + size ≤ userAddressLimit

section Requests

variable {noteOffset : ℕ} (hchecked : Checked v.info v.size noteOffset)

include hchecked

theorem goes_first (hnew : v.space = .new) :
    Goes n i (checkedMmap i ⟨false⟩ (applyArgs n v.size)) v
      ((v.Grants 5 ∧ v.active ≠ sizeMax) ∧ Fits v.size) (·.1 ≠ .ok)
      (To n i (.ok, 0x100000) (mapped v v.size)) := by
  have hasks : Asks v.info n (applyArgs n v.size) :=
    ⟨rfl, ⟨rfl, rfl⟩, ⟨rfl, rfl⟩, ⟨(by decide : writableCode ≠ .none), rfl, rfl, rfl⟩, rfl,
      hchecked.rights⟩
  refine fun s hs ↦ mmap_ends hasks (fun hnone ↦ .inr ⟨?_, Status.noConfusion⟩)
    fun length hlength ↦ ?_
  · rintro ⟨-, haligned, hfits⟩
    exact mappingAlignLength_isSome hchecked.pos haligned ((Nat.le_add_left _ _).trans hfits) hnone
  have hlocked : Goes n i (Space.withLock i (.busy, addressAuto, [⟨v.backing, 0⟩])
      (Space.mmapLocked i (applyArgs n v.size) length writableCode v.backing))
      (v.after 2).attached ((v.after 2).Grants 3 ∧ 0x100000 + length ≤ userAddressLimit)
      (·.1 ≠ .ok) (To n i (.ok, 0x100000, []) (mapped v length)) :=
    goes_withLock_to (c := firstSpace length v.backing) (w := (v.after 6).attached)
      (congrArg Space.closing hnew) (goes_mmapLocked_first hnew _ _
        (Space.mappingAlignLength_pos hlength) (Space.mappingAlignLength_page hlength))
  refine Prog.Ends.mono (goes_mmapChecked 0x100000 (R := fun s' ↦ s'.sight n i = mapped v length)
    hasks (hlocked.mono ?_) s hs) ?_
  · rintro _ s' ⟨rfl, hs'⟩
    exact ⟨rfl, Prog.ends_pure hs'⟩
  rintro r s' (⟨⟨hall, hactive, hsmall, hfits⟩, hr, hs'⟩ | ⟨hno, hbad⟩)
  · obtain rfl : length = v.size := Nat.le_antisymm ((Nat.zero_add _).symm.le.trans hsmall)
      (le_mappingAlignLength hlength)
    exact .inl ⟨⟨⟨hall, hactive⟩, Space.mappingAlignLength_page hlength, hfits⟩, hr, hs'⟩
  · refine .inr ⟨?_, hbad⟩
    rintro ⟨⟨hall, hactive⟩, haligned, hfits⟩
    obtain rfl := Space.mappingAlignLength_self hlength haligned
    exact hno ⟨hall, hactive, (Nat.zero_add _).le, hfits⟩

/-! ## The second mapping -/

/-- The mapping of the page. -/
def secondVma (noteOffset : ℕ) : Vma where
  start := 0x100000
  stop := 0x100000 + pageSize
  mappingCookie := 2
  noteOffset := noteOffset
  prot := writableCode
  maxProt := writableCode
  shared := true

/-- The request for it. -/
abbrev secondArgs (n : NoteId) (size noteOffset : ℕ) : MmapArgs :=
  { filePagesArgs n 0x100000 noteOffset (Space.mappingInfo (firstVma size)) with
    protection := writableCode }

/-- The mappings after a success. -/
def Remapped (noteOffset size : ℕ) (c : Space) : Prop :=
  c.closing = false ∧ c.vmaSnapshot = flat (secondVma noteOffset :: behind (firstVma size)) 4

variable {b : BackingId} (hfits : Fits v.size)

include hfits

theorem goes_mmapLocked_second {c : Space} (hspace : c = firstSpace v.size b) {w : Sight}
    (b' : BackingId) :
    Goes n i (Space.mmapLocked i (secondArgs n v.size noteOffset) pageSize writableCode b' c) w
      (w.Grants (flatCost (behind (firstVma v.size)) + 3)) (·.1.1 ≠ .ok)
      fun r _ ↦ (r.1.1, r.1.2.1) = (.ok, 0x100000) ∧ Remapped noteOffset v.size r.2 := by
  subst hspace
  obtain ⟨hoffset, hinside, -⟩ := hchecked
  obtain ⟨haligned, hfits⟩ := hfits
  have hvalid : (secondVma noteOffset).isValid = true := by
    refine isValid_iff.2 ⟨?_, ?_, ?_, ?_, hoffset, rfl, rfl, rfl, ?_⟩
    all_goals
      simp only [secondVma, pageSize, userAddressLimit, sizeMax] at *
      try omega
  have hlive : (firstVma v.size).start < (firstVma v.size).stop := by
    simp only [firstVma, pageSize] at *
    omega
  have hplace : Goes n i ((firstSpace v.size b).mmapPlace (secondArgs n v.size noteOffset) pageSize
      writableCode) w (w.Grants (flatCost (behind (firstVma v.size)) + 3))
      (fun r ↦ r.1 ≠ .ok ∧ r.2.2 = none) (To n i (.ok, 0x100000,
        some (flat (secondVma noteOffset :: behind (firstVma v.size)) 4))
        ((w.after (flatCost (behind (firstVma v.size)))).after 3)) := by
    have hfixed : ((secondArgs n v.size noteOffset).flags.fixed ||
        (secondArgs n v.size noteOffset).flags.fixedNoreplace) = true := rfl
    have hrange : ¬((secondArgs n v.size noteOffset).addressHint = addressAuto ∨
        Space.mappingRangeIsValid (secondArgs n v.size noteOffset).addressHint pageSize = false) :=
      show ¬((0x100000 : ℕ) = addressAuto ∨ Space.mappingRangeIsValid 0x100000 pageSize = false) by
        decide
    rw [Space.mmapPlace, if_pos hfixed, if_neg hrange]
    exact (goes_replaceRange hlive hvalid rfl rfl (show 2 ≠ 1 by decide) rfl).seq (goes_pure _)
      fun r hbad ↦ hbad
  have hcookie : (firstSpace v.size b).nextMappingCookie ≠ sizeMax := show 2 ≠ sizeMax by decide
  rw [Space.mmapLocked, if_neg hcookie]
  refine fun s hs ↦ (hplace s hs).seq ?_ ?_
  · rintro _ s1 ⟨rfl, -⟩
    -- the allocations that count have been made, and the rest leaves the new snapshot
    exact returns_ends (Returns.seq fun t ↦ Returns.seq (p := malloc) fun _ ↦ ⟨rfl, rfl, rfl⟩)
  · rintro ⟨status, address, _⟩ s1 ⟨hbad, rfl⟩
    exact Prog.ends_pure hbad

variable (hspace : v.space = firstSpace v.size b)

include hspace

theorem goes_second :
    Goes n i (doMmap i ⟨true⟩ (filePagesArgs n 0x100000 noteOffset
        (Space.mappingInfo (firstVma v.size)))) v
      (v.Grants (2 + (flatCost (behind (firstVma v.size)) + 3)) ∧ v.active ≠ sizeMax) (·.1 ≠ .ok)
      fun r s ↦ r = (.ok, 0x100000) ∧ Remapped noteOffset v.size (s.space i) := by
  have hasks : Asks v.info n (secondArgs n v.size noteOffset) :=
    ⟨rfl, ⟨rfl, rfl⟩, ⟨rfl, rfl⟩, ⟨(by decide : writableCode ≠ .none), rfl, rfl, rfl⟩,
      hchecked.aligned, hchecked.rights⟩
  have hlength : Space.mappingAlignLength pageSize = some pageSize := by decide
  have hbody := (goes_mmapLocked_second (n := n) (i := i) (w := (v.after 2).attached) hchecked hfits
    hspace v.backing).congr (and_iff_left trivial).symm
  refine fun s hs ↦ mmap_ends hasks (fun hnone ↦ ?_) fun length hsome ↦ ?_
  · cases hlength.symm.trans hnone
  cases hlength.symm.trans hsome
  refine Goes.congr (goes_mmapChecked 0x100000 hasks ((goes_withLock (v := (v.after 2).attached)
    (B := fun r : Status × ℕ × List Binding ↦ r.1 ≠ .ok) (congrArg Space.closing hspace)
    hbody).mono ?_)) (and_congr_right fun _ ↦ and_iff_left ⟨hchecked.inside, trivial⟩) s hs
  rintro r _ ⟨c, s', ⟨hr, hc⟩, rfl⟩
  refine ⟨hr, ((Binding.still_listDestroy r.2.2).ends _).mono fun _ s2 hstood ↦ ?_⟩
  rw [hstood.space, Space.unlocked]
  dsimp only
  rwa [Function.update_self]

theorem goes_filePages :
    Goes n i (filePages i n 0x100000 noteOffset) v
      (v.Grants (2 + (flatCost (behind (firstVma v.size)) + 3)) ∧ v.active ≠ sizeMax) (· ≠ .ok)
      fun r s ↦ r = .ok ∧ Remapped noteOffset v.size (s.space i) := by
  have hlookup : v.space.vmaSnapshot.lookup 0x100000 = some (firstVma v.size) := by
    rw [hspace]
    exact lookup_flat (Nat.zero_le 1) ⟨le_rfl, Nat.lt_add_of_pos_right hchecked.pos⟩ (by decide)
      (List.forall_mem_nil _)
  refine Goes.next (goes_query (congrArg Space.closing hspace) (by decide) hlookup) ?_
  refine fun s hs ↦ (goes_second hchecked hfits hspace s hs).seq ?_ ?_
  · rintro _ s2 ⟨rfl, hdone⟩
    exact Prog.ends_pure ⟨rfl, hdone⟩
  · intro r s2 hbad
    exact ends_ite (fun _ ↦ Prog.ends_pure hbad) (absurd hbad)

end Requests

/-! ## The call -/

/-- A page of the note can be mapped in place of the first page of a mapping of the whole note. -/
structure Remaps (s : Sys) (n : NoteId) (noteOffset : ℕ) : Prop
    extends Checked (s.noteInfo n) (s.noteSize n) noteOffset where
  fits : Fits (s.noteSize n)
  count : s.activeMappings n ≠ sizeMax ∧ s.activeMappings n + 1 ≠ sizeMax
  tlb : s.tlbEntries ≠ 0
  /-- The thirteenth allocation retires the first snapshot, which can wait. -/
  granted : ∀ k < (if s.noteSize n = pageSize then 19 else 21), k ≠ 12 →
    s.store.host.alloc k = true

theorem flatCost_behind {size : ℕ} (hsize : pageSize ≤ size) :
    13 + (2 + (flatCost (behind (firstVma size)) + 3)) = if size = pageSize then 19 else 21 := by
  simp only [flatCost, behind, firstVma]
  split_ifs <;> simp_all
  all_goals omega

theorem remaps_iff {noteOffset : ℕ} (hchecked : Checked (s.noteInfo n) (s.noteSize n) noteOffset) :
    ((s.sight n i).Grants 7 ∧ s.tlbEntries ≠ 0) ∧
      ((((s.sight n i).after 7).Grants 5 ∧ s.activeMappings n ≠ sizeMax) ∧ Fits (s.noteSize n)) ∧
      ((s.sight n i).after 13).Grants (2 + (flatCost (behind (firstVma (s.noteSize n))) + 3)) ∧
        s.activeMappings n + 1 ≠ sizeMax ↔ Remaps s n noteOffset := by
  have hcost := flatCost_behind ((Nat.le_add_left _ _).trans hchecked.inside)
  constructor
  · rintro ⟨⟨h0, htlb⟩, ⟨⟨h7, hcount⟩, hfits⟩, h13, hcount'⟩
    refine ⟨hchecked, hfits, ⟨hcount, hcount'⟩, htlb, fun k hk hne ↦ ?_⟩
    rcases Nat.lt_or_ge k 12 with hlt | hge
    · exact (Sight.grants_add 7 5).1 ⟨h0, h7⟩ k hlt
    · exact Nat.sub_add_cancel (show 13 ≤ k by omega) ▸ h13 (k - 13) (by omega)
  · intro h
    exact ⟨⟨fun k hk ↦ h.granted k (by omega) (by omega), h.tlb⟩,
      ⟨⟨fun k hk ↦ h.granted (k + 7) (by omega) (by omega), h.count.1⟩, h.fits⟩,
      fun k hk ↦ h.granted (k + 13) (by omega) (by omega), h.count.2⟩

theorem goes_applyIn {noteOffset : ℕ} (hchecked : Checked v.info v.size noteOffset)
    (hnew : v.space = .new) :
    Goes n i (applyIn i n v.size noteOffset) v
      (((v.Grants 5 ∧ v.active ≠ sizeMax) ∧ Fits v.size) ∧
        (v.after 6).Grants (2 + (flatCost (behind (firstVma v.size)) + 3)) ∧
        v.active + 1 ≠ sizeMax)
      (fun r ↦ r.1 ≠ .ok ∧ r.2 = .none) fun r _ ↦ r = (.ok, writableCode) := by
  refine (goes_first hchecked hnew).bindIf (fun hc s hs ↦ ?_) ?_
  · refine (goes_filePages (v := mapped v v.size) hchecked hc.2 rfl s hs).seq ?_ ?_
    · rintro _ s2 ⟨rfl, hopen, hsnapshot⟩
      have hlookup : (s2.space i).vmaSnapshot.lookup 0x100000 = some (secondVma noteOffset) := by
        rw [hsnapshot]
        refine lookup_flat (behind_few _) ⟨le_rfl, Nat.lt_add_of_pos_right (by decide)⟩ (by decide)
          fun u hu ↦ ?_
        rw [(mem_behind hu).1]
        exact Nat.lt_add_of_pos_right (by decide)
      refine Prog.Ends.bind (goes_query (n := n) hopen (by decide) hlookup s2 rfl) ?_
      rintro _ s3 (⟨-, rfl, -⟩ | ⟨-, hno⟩)
      · exact Prog.ends_pure rfl
      · exact hno.elim
    · intro status s2 hbad
      exact ends_ite (fun _ ↦ Prog.ends_pure ⟨hbad, rfl⟩) (absurd hbad)
  · rintro ⟨status, address⟩ hbad
    dsimp only at hbad ⊢
    rw [if_neg hbad, Prog.pure_bind, if_pos hbad]
    exact ⟨hbad, rfl⟩

theorem apply_decides (s : Sys) (n : NoteId) (noteOffset : ℕ) :
    Prog.Decides (fun o s ↦ s.exec o) (apply n noteOffset) s (Remaps s n noteOffset)
      (fun r ↦ r.1 ≠ .ok ∧ r.2 = .none) fun r _ ↦ r = (.ok, writableCode) := by
  refine ends_exec rfl ?_
  by_cases hcheck : noteOffset % pageSize ≠ 0 ∨ noteOffset > s.noteSize n ∨
      pageSize > s.noteSize n - noteOffset
  · rw [if_pos hcheck]
    refine Prog.Ends.refuses (Prog.ends_pure ⟨Status.noConfusion, rfl⟩) fun h ↦ ?_
    have haligned := h.aligned
    have hinside := h.inside
    omega
  rw [if_neg hcheck]
  refine ends_exec rfl ?_
  by_cases hrights : (s.noteInfo n).rights.read = false ∨ (s.noteInfo n).rights.write = false ∨
      (s.noteInfo n).rights.share = false
  · rw [if_pos hrights]
    refine Prog.Ends.refuses (Prog.ends_pure ⟨Status.noConfusion, rfl⟩) fun h ↦ ?_
    simp [h.rights] at hrights
  rw [if_neg hrights]
  simp only [not_or, Bool.not_eq_false] at hrights
  have hchecked : Checked (s.noteInfo n) (s.noteSize n) noteOffset := by
    refine ⟨not_not.1 fun h ↦ hcheck (.inl h), ?_, hrights⟩
    simp only [pageSize] at *
    omega
  refine ((goes_create rfl).bindIf (fun _ s1 hs1 ↦ ?_) ?_).congr (remaps_iff hchecked) s rfl
  · refine (goes_applyIn (v := { (s.sight n s.nextSpace).after 7 with
      nextSpace := s.nextSpace + 1, space := .new }) hchecked rfl s1 hs1).seq ?_ ?_
    · exact fun r s2 hr ↦ returns_ends (Returns.seq fun _ ↦ hr)
    · exact fun r s2 hbad ↦ returns_ends (Returns.seq fun _ ↦ hbad)
  · rintro ⟨status, _⟩ ⟨hbad, rfl⟩
    exact ⟨hbad, rfl⟩

theorem securityMmapFile_writableCode (context : Context) {args : MmapArgs}
    (hfile : args.flags.anonymous = false) (hprot : args.protection = writableCode) :
    securityMmapFile context args = .permission := by
  rw [securityMmapFile, hprot, hfile]
  obtain ⟨_ | _⟩ := context <;> rfl

/-- A call leaves a page that is writable and executable exactly if it can remap one, and then the
hook would have refused it: the mapping that replaces the page is never shown to the hook. Any other
call fails and reports no protection. -/
theorem apply_iff {s s' : Sys} {n : NoteId} {noteOffset : ℕ} {status : Status} {protection : Prot}
    (hrun : (apply n noteOffset).run s = .done (status, protection) s') :
    (protection.write = true ∧ protection.exec = true ↔ Remaps s n noteOffset) ∧
      (Remaps s n noteOffset → status = .ok ∧ ∀ context args, args.flags.anonymous = false →
        args.protection = protection → securityMmapFile context args = .permission) ∧
      (¬Remaps s n noteOffset → status ≠ .ok ∧ protection = .none) := by
  rcases apply_decides s n noteOffset _ s' hrun with ⟨hremaps, heq⟩ | ⟨hno, hbad, hnone⟩
  · cases heq
    refine ⟨iff_of_true ⟨rfl, rfl⟩ hremaps, fun _ ↦ ⟨rfl, fun context args hfile hprot ↦ ?_⟩,
      fun hno ↦ absurd hremaps hno⟩
    exact securityMmapFile_writableCode context hfile hprot
  · cases hnone
    refine ⟨iff_of_false ?_ hno, fun hremaps ↦ absurd hremaps hno, fun _ ↦ ⟨hbad, rfl⟩⟩
    rintro ⟨hwrite, -⟩
    cases hwrite

/-- A note of four pages with all the rights that a call asks for. -/
def fourPages : Option Sys :=
  (Sys.created .reliable (fun _ ↦ ⟨fun _ ↦ 0, .ok⟩) 8 4).after
    [.noteCreate 16384 { read := true, write := true, share := true }]

/-- What a call on its third page answers. -/
def fourPagesAnswer : Option (Status × Prot) :=
  fourPages.bind fun s ↦
    match (apply 0 8192).run s with
    | .done r _ => some r
    | _ => none

theorem fourPages_run : ∃ s s', fourPages = some s ∧ s.Reachable ∧ 0 < s.nextNote ∧
    (apply 0 8192).run s = .done (.ok, writableCode) s' := by
  obtain ⟨s, hs⟩ := Option.isSome_iff_exists.1 (show fourPages.isSome = true by decide +kernel)
  have hanswer : fourPagesAnswer = some (.ok, writableCode) := by decide +kernel
  have hnext : fourPages.map Sys.nextNote = some 1 := by decide +kernel
  rw [fourPagesAnswer, hs, Option.bind_some] at hanswer
  rw [hs] at hnext
  refine ⟨s, ?_⟩
  cases hrun : (apply 0 8192).run s with
  | done r s' =>
    rw [hrun] at hanswer
    cases hanswer
    exact ⟨s', hs, ⟨_, _, _, _, Sys.runs_after hs⟩, Option.some.inj hnext ▸ Nat.one_pos, rfl⟩
  | _ =>
    rw [hrun] at hanswer
    cases hanswer

/-- A call that succeeds, and leaves a page of a file that is writable and executable. -/
theorem apply_fourPages : ∃ s s', s.Reachable ∧ 0 < s.nextNote ∧
    (apply 0 8192).run s = .done (.ok, writableCode) s' ∧
    writableCode.write = true ∧ writableCode.exec = true := by
  obtain ⟨s, s', -, hreach, hn, hrun⟩ := fourPages_run
  exact ⟨s, s', hreach, hn, hrun, rfl, rfl⟩

/-- The state of that call is one in which a page can be remapped. -/
theorem apply_iff_fourPages : ∃ s s', s.Reachable ∧
    (apply 0 8192).run s = .done (.ok, writableCode) s' ∧ Remaps s 0 8192 := by
  obtain ⟨s, s', -, hreach, -, hrun⟩ := fourPages_run
  exact ⟨s, s', hreach, hrun, (apply_iff hrun).1.1 ⟨rfl, rfl⟩⟩

end PageRemap

end MiniMM
