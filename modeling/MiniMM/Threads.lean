import MiniMM.Binding.Reach
import MiniMM.Frame.Reach
import MiniMM.Spec.Access
import MiniMM.Spec.Brk
import MiniMM.Spec.Fork
import MiniMM.Spec.Mlock
import MiniMM.Spec.Remap

/-!
# Threads

Any number of threads run calls on one system. Their steps interleave in any order, a thread that
waits in the frame store tries again later, and a thread that finds a lock taken has to wait until
it is free. The clients only release references to notes that they have.
-/

namespace MiniMM

open Handle

/-! ## What threads run -/

inductive Task where
  | call (k : Call)
  /-- `minimm_system_reclaim`. -/
  | systemReclaim (targetPages : ℕ)

namespace Task

/-- The note whose reference a call has handed out. -/
def gained (p : Code (Status × NoteId)) : Code (Option NoteId) := do
  let (status, n) ← p
  pure (if status = .ok then some n else none)

def finishing {α : Type} (p : Code α) (note : Option NoteId) : Code (Option NoteId) := do
  let _ ← p
  pure note

def code : Task → Code (Option NoteId)
  | call (.noteCreate size rights) => gained (Note.create size rights)
  | call (.noteOpenFd bytes size rights) => gained (Note.openFd bytes size rights)
  | call (.noteCopy n rights) => gained (Note.copy n rights)
  | call (.noteRetain n) => finishing (Note.retain n) (some n)
  | call k => finishing k.code none
  | systemReclaim targetPages => finishing (Code.store (.reclaim targetPages)) none

/-- The reference that a call gives up. -/
def spends : Task → Multiset NoteId
  | call (.noteRelease n) => {n}
  | _ => 0

/-- The task names what has been made. -/
def Legal (s : Sys) : Task → Prop
  | call k => k.Legal s
  | systemReclaim _ => True

end Task

/-- The system, the references to notes that the clients have, and what the calls in progress have
still to do. -/
structure Pool where
  sys : Sys
  owned : Multiset NoteId
  threads : Multiset (Code (Option NoteId))

namespace Pool

/-- One step of one thread. With `prompt` the pins that follow a copy on write find their frame
resident. -/
inductive Step (prompt : Bool) : Pool → Pool → Prop where
  | start {s : Sys} {owned : Multiset NoteId} {threads : Multiset (Code (Option NoteId))}
      {t : Task} : t.Legal s → t.spends ≤ owned →
      Step prompt ⟨s, owned, threads⟩ ⟨s, owned - t.spends, t.code ::ₘ threads⟩
  | step {s s' : Sys} {owned : Multiset NoteId} {threads : Multiset (Code (Option NoteId))}
      {β : Type} {o : Sys.Op β} {k : β → Code (Option NoteId)} {b : β} :
      (prompt = true → s.PinsResident o) → s.exec o = .ok b s' →
      Step prompt ⟨s, owned, .op o k ::ₘ threads⟩ ⟨s', owned, k b ::ₘ threads⟩
  | wait {s s' : Sys} {owned : Multiset NoteId} {threads : Multiset (Code (Option NoteId))}
      {β : Type} {o : Sys.Op β} {k : β → Code (Option NoteId)} : s.exec o = .again s' →
      Step prompt ⟨s, owned, .op o k ::ₘ threads⟩ ⟨s', owned, .op (o.wake true) k ::ₘ threads⟩
  | finish {s : Sys} {owned : Multiset NoteId} {threads : Multiset (Code (Option NoteId))}
      {note : Option NoteId} :
      Step prompt ⟨s, owned, .pure note ::ₘ threads⟩ ⟨s, note.elim 0 singleton + owned, threads⟩

/-- The states that threads reach from a new system. -/
inductive Reachable (prompt : Bool) : Pool → Prop where
  | create (host : Host) (file : FileId → FileBacking) (pageCount tlbEntries : ℕ) :
      Reachable prompt ⟨.created host file pageCount tlbEntries, 0, 0⟩
  | step {p p' : Pool} : Reachable prompt p → Step prompt p p' → Reachable prompt p'

theorem Reachable.always {p : Pool} (h : Reachable true p) : Reachable false p := by
  induction h with
  | create host file pageCount tlbEntries => exact .create host file pageCount tlbEntries
  | step _ hstep ih =>
    refine ih.step ?_
    cases hstep with
    | start hlegal hspends => exact .start hlegal hspends
    | step _ hexec => exact .step (fun h ↦ absurd h Bool.false_ne_true) hexec
    | wait hexec => exact .wait hexec
    | finish => exact .finish

end Pool

/-! ## The invariant of a pool -/

section Invariant

variable {μ : Mode} {s s' : Sys} {m m' o o' x : Multiset Handle} {β : Type}

theorem Inv.resplit (h : Inv μ ⟨s, m, o⟩) (heq : m + o = m' + o') : Inv μ ⟨s, m', o'⟩ where
  store := h.store
  tally := by
    have htally := h.tally
    dsimp only at htally ⊢
    rwa [add_assoc, heq, ← add_assoc] at htally
  live := h.live
  lent := h.lent
  fresh := h.fresh
  tlbs := h.tlbs
  locks := h.locks

theorem Inv.wait {w : World} {o : Sys.Op β} (h : Inv μ w) (hneeds : needs μ w o)
    (hexec : w.sys.exec o = .again s') :
    Inv μ ⟨s', w.mine, w.others⟩ ∧ ∀ x ≤ w.mine + w.others, Keeps x w.sys s' := by
  cases o with
  | request f r woken => exact ⟨(h.again (x := 0) hneeds hexec).1, fun _ hx ↦
        (h.again hneeds hexec).2 hx⟩
  | create | store =>
    simp only [Sys.exec] at hexec
    split at hexec <;> cases hexec
  | lockSpace | lockBrk | lockBacking | lockLineage =>
    simp only [Sys.exec, Sys.lock] at hexec
    split at hexec <;> cases hexec
  | retain | retainBacking | retainNote =>
    simp only [Sys.exec, Sys.countUp] at hexec
    split at hexec <;> cases hexec
  | newNote =>
    simp only [Sys.exec] at hexec
    split at hexec <;> cases hexec
  | _ => cases hexec

theorem rely_of_keeps (hμ : μ.alone = false) (hk : Keeps m s s') :
    (rules μ).rely ⟨s, m, o⟩ ⟨s', m, o'⟩ := by
  change if μ.alone then _ else _
  rw [hμ]
  exact ⟨rfl, hk⟩

variable {α : Type} {op : Sys.Op β} {k : β → Code α} {Q : α → World → Prop}

/-- A thread that keeps to the rules makes a step, and its surroundings do not notice. -/
theorem Inv.exec {b : β} (hμ : μ.alone = false) (h : Inv μ ⟨s, m, o⟩)
    (hwp : Prog.wp (rules μ) (.op op k) Q ⟨s, m, o'⟩)
    (hprompt : μ.prompt = true → s.PinsResident op) (hexec : s.exec op = .ok b s') :
    ∃ m', Inv μ ⟨s', m', o⟩ ∧ Prog.wp (rules μ) (k b) Q ⟨s', m', o⟩ ∧ ∀ y ≤ o, Keeps y s s' := by
  obtain ⟨hlegal, hnext⟩ := hwp _ (rely_of_keeps hμ .refl) h
  obtain ⟨woken, hwoken⟩ := op.exists_wake
  have hexec' : s.exec (op.wake woken) = .ok b s' := by rw [hwoken, hexec]
  have hn : Next μ op ⟨s, m, o⟩ b ⟨s', m - s.take op + s.give op b, o⟩ := by
    refine ⟨⟨woken, hexec'⟩, ?_, rfl, hprompt⟩
    dsimp only
    rw [add_right_comm, tsub_add_cancel_of_le (le_self_add.trans hlegal.1)]
  have hinv := h.next hlegal hn
  exact ⟨_, hinv, hnext b _ hn hinv, fun y hy ↦ h.keeps (add_le_add hlegal.1 hy) hlegal.2 hexec'⟩

theorem Inv.again_later (hμ : μ.alone = false) (h : Inv μ ⟨s, m, o⟩)
    (hwp : Prog.wp (rules μ) (.op op k) Q ⟨s, m, o'⟩) (hexec : s.exec op = .again s') :
    Inv μ ⟨s', m, o⟩ ∧ Prog.wp (rules μ) (.op (op.wake true) k) Q ⟨s', m, o⟩ ∧
      ∀ y ≤ o, Keeps y s s' := by
  obtain ⟨hlegal, -⟩ := hwp _ (rely_of_keeps hμ .refl) h
  obtain ⟨hinv, hkeeps⟩ := h.wait hlegal.2 hexec
  refine ⟨hinv, ?_, fun y hy ↦ hkeeps y (hy.trans (le_add_left le_rfl))⟩
  have hrest : Prog.wp (rules μ) (.op op k) Q ⟨s', m, o⟩ :=
    Prog.wp_op_rely hwp (rely_of_keeps hμ (hkeeps m le_self_add))
  cases op with
  | request f r woken =>
    -- the rules do not depend on whether the thread has been woken
    intro w1 hrely hinv1
    obtain ⟨hlegal1, hnext⟩ := hrest w1 hrely hinv1
    exact ⟨hlegal1, fun b w2 hn ↦ hnext b w2 ⟨hn.exec, hn.mine, hn.others, hn.prompt⟩⟩
  | _ => exact hrest

end Invariant

/-! ## Tasks -/

/-- The handle of the note that a task returns. -/
def noteOf (n : Option NoteId) : Multiset Handle := n.elim 0 fun n ↦ {note n}

namespace Task

variable {μ : Mode} {s : Sys} {o : Multiset Handle}

theorem finishing_spec {α : Type} {H : Multiset Handle} {P : Sys → Prop} {p : Code α}
    {n : Option NoteId} (h : Triple μ 0 H P p (fun _ ↦ noteOf n) fun _ _ ↦ True) :
    Triple μ 0 H P (finishing p n) noteOf fun _ _ ↦ True := by
  intro s x w hK hat hP
  refine h.first hat hP fun _ w1 hat1 _ _ ↦ ?_
  exact ⟨hat1.congr (add_zero _), trivial⟩

theorem gained_spec {P : Sys → Prop} {p : Code (Status × NoteId)}
    (h : Triple μ 0 0 P p Note.gotNote fun _ _ ↦ True) :
    Triple μ 0 0 P (gained p) noteOf fun _ _ ↦ True := by
  intro s x w hK hat hP
  refine h.next hat hP ?_
  rintro ⟨status, n⟩ w1 hat1 - -
  refine ⟨hat1.congr ?_, trivial⟩
  rw [Note.gotNote, add_zero]
  dsimp only
  split_ifs <;> rfl

/-- Every call keeps to the rules, and ends with a reference to the note it returns. -/
theorem code_spec (t : Task) :
    Triple μ 0 (t.spends.map note) t.Legal t.code noteOf fun _ _ ↦ True := by
  have hspace : ∀ {k : Call} {i : SpaceId} {p : Code Unit}, k.space? = some i →
      Spends μ 0 0 (fun s ↦ i < s.nextSpace) p →
      Triple μ 0 0 (fun s ↦ k.Legal s) (finishing p none) noteOf fun _ _ ↦ True :=
    fun hi hp ↦ finishing_spec (hp.pre (fun _ h ↦ h.space _ hi))
  have hnote : ∀ {k : Call} {n : NoteId} {p : Code Unit}, k.note? = some n →
      Spends μ 0 0 (fun s ↦ n < s.nextNote) p →
      Triple μ 0 0 (fun s ↦ k.Legal s) (finishing p none) noteOf fun _ _ ↦ True :=
    fun hn hp ↦ finishing_spec (hp.pre (fun _ h ↦ h.note _ hn))
  have hignore : ∀ {α : Type} {P : Sys → Prop} {p : Code α},
      Spends μ 0 0 P p → Spends μ 0 0 P (Call.code.ignore p) := by
    intro α P p h s x w hK hat hP
    exact h.next hat hP fun _ w1 hat1 _ _ ↦ ⟨hat1.congr (add_zero _), trivial⟩
  cases t with
  | systemReclaim n => exact finishing_spec ((reclaim_spec n).pre (fun _ _ ↦ trivial))
  | call k =>
  cases k with
  | spaceCreate => exact finishing_spec (hignore (Space.create_spec.pre (fun _ _ ↦ trivial)))
  | spaceDestroy i => exact hspace rfl Space.destroy_spec
  | fork i => exact hspace rfl (hignore Space.fork_spec)
  | flushTlb i => exact hspace rfl (hignore Space.flushTlb_spec)
  | mmap i args =>
    exact finishing_spec (hignore ((Space.mmap_spec args).pre
      fun _ h ↦ ⟨h.space i rfl, fun n hn ↦ h.note n hn⟩))
  | munmap i => exact hspace rfl (hignore (Space.munmap_spec _ _))
  | mprotect i => exact hspace rfl (hignore (Space.mprotect_spec _ _ _))
  | mremap i => exact hspace rfl (hignore (Space.mremap_spec _ _ _ _ _))
  | mappingCopy i => exact hspace rfl (hignore (Space.mappingCopy_spec _ _ _))
  | brk i => exact hspace rfl (hignore (Space.brk_spec _))
  | sbrk i => exact hspace rfl (hignore (Space.sbrk_spec _))
  | handlePageFault i => exact hspace rfl (hignore (Space.handlePageFault_spec _))
  | getFaultTrace i => exact hspace rfl (hignore Space.getFaultTrace_spec)
  | clearFaultTrace i => exact hspace rfl (hignore Space.clearFaultTrace_spec)
  | read i => exact hspace rfl (hignore (Space.accessMemory_spec rfl _))
  | write i => exact hspace rfl (hignore (Space.accessMemory_spec rfl _))
  | edit i => exact hspace rfl (hignore (Space.accessMemory_spec rfl _))
  | msync i => exact hspace rfl (hignore (Space.msync_spec _ _))
  | mincore i => exact hspace rfl (hignore (Space.mincore_spec _ _ _))
  | mlock i => exact hspace rfl (hignore (Space.mlock_spec _ _))
  | munlock i => exact hspace rfl (hignore (Space.munlock_spec _ _))
  | madvise i => exact hspace rfl (hignore (Space.madvise_spec _ _ _))
  | noteCreate size rights =>
    exact gained_spec ((Note.create_spec size rights).pre fun _ _ ↦ trivial)
  | noteOpenFd bytes size rights =>
    exact gained_spec ((Note.openFd_spec bytes size rights).pre fun _ _ ↦ trivial)
  | noteCopy n rights => exact gained_spec ((Note.copy_spec rights).pre (fun _ h ↦ h.note n rfl))
  | noteResize n => exact hnote rfl (hignore (Note.resize_spec _))
  | noteRetain n => exact finishing_spec (retainNote_spec.pre (fun _ h ↦ h.note n rfl))
  | noteRelease n => exact finishing_spec (Note.release_spec.pre (fun _ _ ↦ trivial))
  | notePread n => exact hnote rfl (hignore (Note.pread_spec _ _))
  | notePwrite n => exact hnote rfl (hignore (Note.pwrite_spec _ _))
  | notePedit n => exact hnote rfl (hignore (Note.pedit_spec _ _))
  | noteFlush n => exact hnote rfl (hignore Note.flush_spec)

end Task

/-! ## Threads that keep to the rules -/

/-- What the rest of a call needs: it ends with a reference to the note it returns, and with
nothing else. -/
def Safe (μ : Mode) (s : Sys) (m : Multiset Handle) (rest : Code (Option NoteId)) : Prop :=
  Prog.wp (rules μ) rest (fun n w ↦ w.mine = noteOf n) ⟨s, m, 0⟩

namespace Pool

/-- Every handle is in the memory of the system, with the clients or with a thread, and the threads
have what they need. The handles `x` belong to a call that runs beside them. -/
def Ok (μ : Mode) (x : Multiset Handle) (p : Pool) : Prop :=
  ∃ held : Multiset (Code (Option NoteId) × Multiset Handle), held.map Prod.fst = p.threads ∧
    Inv μ ⟨p.sys, x, p.owned.map note + (held.map Prod.snd).sum⟩ ∧
    ∀ t ∈ held, Safe μ p.sys t.2 t.1

section Ok

variable {μ : Mode} {s s' : Sys} {owned : Multiset NoteId} {rest : Code (Option NoteId)}
  {threads : Multiset (Code (Option NoteId))} {m x : Multiset Handle} {p p' : Pool}

theorem safe_keeps (hμ : μ.alone = false) (h : Safe μ s m rest) (hk : Keeps m s s') :
    Safe μ s' m rest :=
  Prog.wp_rely h (fun _ h ↦ h) (rely_of_keeps hμ hk)

theorem safe_of_wp (hμ : μ.alone = false) {o : Multiset Handle}
    (h : Prog.wp (rules μ) rest (fun n w ↦ w.mine = noteOf n) ⟨s, m, o⟩) : Safe μ s m rest :=
  Prog.wp_rely h (fun _ h ↦ h) (rely_of_keeps hμ .refl)

/-- One thread in view, with the others as its surroundings. -/
structure View (μ : Mode) (x : Multiset Handle) (s : Sys) (owned : Multiset NoteId)
    (m : Multiset Handle) (held : Multiset (Code (Option NoteId) × Multiset Handle)) : Prop where
  inv : Inv μ ⟨s, m, x + (owned.map note + (held.map Prod.snd).sum)⟩
  safe : ∀ t ∈ held, Safe μ s t.2 t.1

theorem Ok.view (h : Ok μ x ⟨s, owned, rest ::ₘ threads⟩) :
    ∃ m held, held.map Prod.fst = threads ∧ Safe μ s m rest ∧ View μ x s owned m held := by
  classical
  obtain ⟨held, hthreads, hinv, hsafe⟩ := h
  obtain ⟨t, ht, rfl, rfl⟩ := (Multiset.map_eq_cons _ _ _ _).2 hthreads
  refine ⟨t.2, held.erase t, rfl, hsafe t ht, hinv.resplit ?_, fun u hu ↦ ?_⟩
  · rw [← Multiset.cons_erase ht, Multiset.map_cons, Multiset.sum_cons]
    simp only [Multiset.erase_cons_head]
    abel
  · exact hsafe u (Multiset.mem_of_mem_erase hu)

theorem View.ok {held : Multiset (Code (Option NoteId) × Multiset Handle)}
    (h : View μ x s owned m held) (hrest : Safe μ s m rest) :
    Ok μ x ⟨s, owned, rest ::ₘ held.map Prod.fst⟩ := by
  refine ⟨(rest, m) ::ₘ held, Multiset.map_cons _ _ _, h.inv.resplit ?_, fun t ht ↦ ?_⟩
  · rw [Multiset.map_cons, Multiset.sum_cons]
    abel
  · rcases Multiset.mem_cons.1 ht with rfl | ht
    · exact hrest
    · exact h.safe t ht

theorem View.others {held : Multiset (Code (Option NoteId) × Multiset Handle)}
    (hμ : μ.alone = false) (h : View μ x s owned m held)
    (hk : ∀ y, y ≤ x + (owned.map note + (held.map Prod.snd).sum) → Keeps y s s') :
    ∀ t ∈ held, Safe μ s' t.2 t.1 := by
  intro t ht
  refine safe_keeps hμ (h.safe t ht) (hk _ (le_add_left (le_add_left ?_)))
  exact Multiset.single_le_sum (fun _ _ ↦ zero_le) _ (Multiset.mem_map_of_mem _ ht)

theorem ok_created (host : Host) (file : FileId → FileBacking) (pageCount tlbEntries : ℕ) :
    Ok μ 0 ⟨.created host file pageCount tlbEntries, 0, 0⟩ :=
  ⟨0, rfl, .created host file pageCount tlbEntries, fun _ ht ↦ absurd ht (Multiset.notMem_zero _)⟩

theorem Ok.start (hμ : μ.alone = false) (h : Ok μ x ⟨s, owned, threads⟩) {t : Task}
    (hlegal : t.Legal s) (hspends : t.spends ≤ owned) :
    Ok μ x ⟨s, owned - t.spends, t.code ::ₘ threads⟩ := by
  obtain ⟨held, rfl, hinv, hsafe⟩ := h
  have hview : View μ x s (owned - t.spends) (t.spends.map note) held := by
    refine ⟨hinv.resplit ?_, hsafe⟩
    nth_rw 1 [← tsub_add_cancel_of_le hspends]
    rw [Multiset.map_add]
    abel
  refine hview.ok (safe_of_wp hμ (Prog.wp_mono (t.code_spec s 0 ⟨s, _, _⟩ zero_le
    (.refl hview.inv (add_zero _).symm) hlegal) ?_))
  rintro n w' ⟨hat, -⟩
  rw [hat.mine, add_zero]

/-- A step of one thread: the others, and the call beside them, do not notice it. -/
theorem Ok.exec (hμ : μ.alone = false) {β : Type} {o : Sys.Op β} {k : β → Code (Option NoteId)}
    {b : β} (h : Ok μ x ⟨s, owned, .op o k ::ₘ threads⟩)
    (hprompt : μ.prompt = true → s.PinsResident o) (hexec : s.exec o = .ok b s') :
    Ok μ x ⟨s', owned, k b ::ₘ threads⟩ ∧ Keeps x s s' := by
  obtain ⟨m, held, rfl, hsafe, hview⟩ := h.view
  obtain ⟨m', hinv, hrest, hkeeps⟩ := hview.inv.exec hμ hsafe hprompt hexec
  exact ⟨View.ok ⟨hinv, hview.others hμ hkeeps⟩ (safe_of_wp hμ hrest), hkeeps x le_self_add⟩

theorem Ok.wait (hμ : μ.alone = false) {β : Type} {o : Sys.Op β} {k : β → Code (Option NoteId)}
    (h : Ok μ x ⟨s, owned, .op o k ::ₘ threads⟩) (hexec : s.exec o = .again s') :
    Ok μ x ⟨s', owned, .op (o.wake true) k ::ₘ threads⟩ ∧ Keeps x s s' := by
  obtain ⟨m, held, rfl, hsafe, hview⟩ := h.view
  obtain ⟨hinv, hrest, hkeeps⟩ := hview.inv.again_later hμ hsafe hexec
  exact ⟨View.ok ⟨hinv, hview.others hμ hkeeps⟩ (safe_of_wp hμ hrest), hkeeps x le_self_add⟩

theorem Ok.finish {n : Option NoteId} (h : Ok μ x ⟨s, owned, .pure n ::ₘ threads⟩) :
    Ok μ x ⟨s, n.elim 0 singleton + owned, threads⟩ := by
  obtain ⟨m, held, rfl, hsafe, hview⟩ := h.view
  refine ⟨held, rfl, hview.inv.resplit ?_, hview.safe⟩
  have hm : m = noteOf n := hsafe
  have hmap : (n.elim 0 singleton : Multiset NoteId).map note = noteOf n := by
    cases n <;> rfl
  rw [Multiset.map_add, hmap, hm]
  abel

theorem Ok.step (hμ : μ.alone = false) (h : p.Ok μ x) (hstep : Step μ.prompt p p') :
    p'.Ok μ x ∧ Keeps x p.sys p'.sys := by
  cases hstep with
  | start hlegal hspends => exact ⟨h.start hμ hlegal hspends, .refl⟩
  | step hprompt hexec => exact h.exec hμ hprompt hexec
  | wait hexec => exact h.wait hμ hexec
  | finish => exact ⟨h.finish, .refl⟩

theorem Reachable.ok {prompt : Bool} (h : Reachable prompt p) : p.Ok ⟨false, prompt⟩ 0 := by
  induction h with
  | create host file pageCount tlbEntries => exact ok_created host file pageCount tlbEntries
  | step _ hstep ih => exact (ih.step rfl hstep).1

/-! ## One call among the others -/

/-- A call runs to its end, and the threads act between its steps. -/
inductive Runs (prompt : Bool) {α : Type} : Code α → Pool → α → Pool → Prop where
  | pure {a : α} {p : Pool} : Runs prompt (.pure a) p a p
  | step {β : Type} {o : Sys.Op β} {k : β → Code α} {b : β} {a : α} {p p' : Pool} {s : Sys} :
      (prompt = true → p.sys.PinsResident o) → p.sys.exec o = .ok b s →
      Runs prompt (k b) { p with sys := s } a p' → Runs prompt (.op o k) p a p'
  | wait {β : Type} {o : Sys.Op β} {k : β → Code α} {a : α} {p p' : Pool} {s : Sys} :
      p.sys.exec o = .again s → Runs prompt (.op (o.wake true) k) { p with sys := s } a p' →
      Runs prompt (.op o k) p a p'
  | others {β : Type} {o : Sys.Op β} {k : β → Code α} {a : α} {p p1 p' : Pool} :
      Step prompt p p1 → Runs prompt (.op o k) p1 a p' → Runs prompt (.op o k) p a p'

theorem Ok.inv (h : p.Ok μ m) : ∃ o, Inv μ ⟨p.sys, m, o⟩ ∧
    ∀ {m' s'}, Inv μ ⟨s', m', o⟩ → (∀ y ≤ o, Keeps y p.sys s') → μ.alone = false →
      { p with sys := s' }.Ok μ m' := by
  obtain ⟨held, hthreads, hinv, hsafe⟩ := h
  refine ⟨_, hinv, fun hinv' hkeeps hμ ↦ ⟨held, hthreads, hinv', fun t ht ↦ ?_⟩⟩
  refine safe_keeps hμ (hsafe t ht) (hkeeps _ (le_add_left ?_))
  exact Multiset.single_le_sum (fun _ _ ↦ zero_le) _ (Multiset.mem_map_of_mem _ ht)

theorem Runs.post {α : Type} {code : Code α} {a : α} {Q : α → World → Prop}
    (hrun : Runs μ.prompt code p a p') (hμ : μ.alone = false) {o : Multiset Handle}
    (h : p.Ok μ m) (hwp : Prog.wp (rules μ) code Q ⟨p.sys, m, o⟩) :
    ∃ m' o', p'.Ok μ m' ∧ Q a ⟨p'.sys, m', o'⟩ := by
  induction hrun generalizing m o with
  | pure => exact ⟨m, o, h, hwp⟩
  | step hprompt hexec _ ih =>
    obtain ⟨o1, hinv, hok⟩ := h.inv
    obtain ⟨m', hinv', hrest, hkeeps⟩ := hinv.exec hμ hwp hprompt hexec
    exact ih (hok hinv' hkeeps hμ) hrest
  | wait hexec _ ih =>
    obtain ⟨o1, hinv, hok⟩ := h.inv
    obtain ⟨hinv', hrest, hkeeps⟩ := hinv.again_later hμ hwp hexec
    exact ih (hok hinv' hkeeps hμ) hrest
  | others hstep _ ih =>
    obtain ⟨h1, hk⟩ := h.step hμ hstep
    exact ih (o := o) h1 (Prog.wp_op_rely hwp (rely_of_keeps hμ hk))

end Ok

/-! ## Schedules -/

/-- The test of `Sys.PinsResident`. -/
def pinsResident (s : Sys) {β : Type} : Sys.Op β → Bool
  | .store (.pin .replaceFrame f) => s.store.resident f
  | _ => true

theorem pinsResident_spec {s : Sys} {β : Type} {o : Sys.Op β} (h : pinsResident s o = true) :
    s.PinsResident o := by
  cases o with
  | store q =>
    cases q with
    | pin site f =>
      cases site with
      | replaceFrame => exact h
      | _ => trivial
    | _ => trivial
  | _ => trivial

instance (s : Sys) : (t : Task) → Decidable (t.Legal s)
  | .call k => decidable_of_iff ((∀ i ∈ k.space?, i < s.nextSpace) ∧ ∀ n ∈ k.note?, n < s.nextNote)
      ⟨fun h ↦ ⟨h.1, h.2⟩, fun h ↦ ⟨h.space, h.note⟩⟩
  | .systemReclaim _ => inferInstanceAs (Decidable True)

/-- Let a thread make at most `fuel` steps. -/
def advance {α : Type} (prompt : Bool) : ℕ → Code α → Sys → Option (Code α × Sys)
  | 0, rest, s => some (rest, s)
  | _ + 1, .pure n, s => some (.pure n, s)
  | fuel + 1, .op o k, s =>
    if prompt && !pinsResident s o then none
    else
      match s.exec o with
      | .ok b s' => advance prompt fuel (k b) s'
      | _ => none

/-- Run a call from its start to its end. -/
def perform (prompt : Bool) (fuel : ℕ) (t : Task) (p : Pool) : Option Pool :=
  if t.Legal p.sys ∧ t.spends ≤ p.owned then
    match advance prompt fuel t.code p.sys with
    | some (.pure n, s) => some ⟨s, n.elim 0 singleton + (p.owned - t.spends), p.threads⟩
    | _ => none
  else none

theorem Reachable.advance {prompt : Bool} {fuel : ℕ} {rest rest' : Code (Option NoteId)}
    {s s' : Sys} {owned : Multiset NoteId} {threads : Multiset (Code (Option NoteId))}
    (h : Reachable prompt ⟨s, owned, rest ::ₘ threads⟩)
    (hrun : advance prompt fuel rest s = some (rest', s')) :
    Reachable prompt ⟨s', owned, rest' ::ₘ threads⟩ := by
  induction fuel generalizing rest s with
  | zero =>
    cases hrun
    exact h
  | succ fuel ih =>
    cases rest with
    | pure n =>
      cases hrun
      exact h
    | op o k =>
      rw [Pool.advance] at hrun
      split_ifs at hrun with hpins
      split at hrun
      · next b s1 hexec =>
        refine ih (h.step (.step (fun hprompt ↦ pinsResident_spec ?_) hexec)) hrun
        simpa [hprompt] using hpins
      · cases hrun

theorem Runs.of_advance {α : Type} {prompt : Bool} {fuel : ℕ} {code : Code α} {p : Pool} {a : α}
    {s' : Sys} (hrun : advance prompt fuel code p.sys = some (.pure a, s')) :
    Runs prompt code p a { p with sys := s' } := by
  induction fuel generalizing code p with
  | zero =>
    cases hrun
    exact .pure
  | succ fuel ih =>
    cases code with
    | pure b =>
      cases hrun
      exact .pure
    | op o k =>
      rw [Pool.advance] at hrun
      split_ifs at hrun with hpins
      split at hrun
      · next b s1 hexec =>
        refine .step (fun hprompt ↦ pinsResident_spec ?_) hexec (ih hrun)
        simpa [hprompt] using hpins
      · cases hrun

theorem Reachable.perform {prompt : Bool} {fuel : ℕ} {t : Task} {p p' : Pool}
    (h : Reachable prompt p) (hrun : perform prompt fuel t p = some p') : Reachable prompt p' := by
  rw [Pool.perform] at hrun
  split_ifs at hrun with hlegal
  split at hrun
  · next n s hadvance =>
    cases hrun
    exact ((h.step (.start hlegal.1 hlegal.2)).advance hadvance).step .finish
  · cases hrun

/-- Run calls one after the other. -/
def performAll (prompt : Bool) (fuel : ℕ) : List Task → Pool → Option Pool
  | [], p => some p
  | t :: rest, p => (perform prompt fuel t p).bind (performAll prompt fuel rest)

theorem Reachable.performAll {prompt : Bool} {fuel : ℕ} {tasks : List Task} {p p' : Pool}
    (h : Reachable prompt p) (hrun : performAll prompt fuel tasks p = some p') :
    Reachable prompt p' := by
  induction tasks generalizing p with
  | nil =>
    cases hrun
    exact h
  | cons t rest ih =>
    obtain ⟨p1, hfirst, hrest⟩ := Option.bind_eq_some_iff.1 hrun
    exact ih (h.perform hfirst) hrest

theorem perform_threads {prompt : Bool} {fuel : ℕ} {t : Task} {p p' : Pool}
    (hrun : Pool.perform prompt fuel t p = some p') : p'.threads = p.threads := by
  rw [Pool.perform] at hrun
  split_ifs at hrun
  split at hrun <;> cases hrun
  rfl

theorem performAll_threads {prompt : Bool} {fuel : ℕ} {tasks : List Task} {p p' : Pool}
    (hrun : Pool.performAll prompt fuel tasks p = some p') : p'.threads = p.threads := by
  induction tasks generalizing p with
  | nil =>
    cases hrun
    rfl
  | cons t rest ih =>
    obtain ⟨p1, hfirst, hrest⟩ := Option.bind_eq_some_iff.1 hrun
    rw [ih hrest, perform_threads hfirst]

/-- A call makes `n` steps, other calls run from their start to their end, and the first one goes
on. -/
def interrupt (prompt : Bool) (fuel n : ℕ) (t : Task) (between : List Task) (p : Pool) :
    Option Pool :=
  if t.Legal p.sys ∧ t.spends ≤ p.owned then
    (advance prompt n t.code p.sys).bind fun r ↦
      (performAll prompt fuel between ⟨r.2, p.owned - t.spends, r.1 ::ₘ p.threads⟩).bind fun q ↦
        match advance prompt fuel r.1 q.sys with
        | some (.pure gained, s) => some ⟨s, gained.elim 0 singleton + q.owned, p.threads⟩
        | _ => none
  else none

theorem interrupt_threads {prompt : Bool} {fuel n : ℕ} {t : Task} {between : List Task}
    {p p' : Pool} (hrun : Pool.interrupt prompt fuel n t between p = some p') :
    p'.threads = p.threads := by
  rw [Pool.interrupt] at hrun
  split_ifs at hrun
  obtain ⟨r, -, hrun⟩ := Option.bind_eq_some_iff.1 hrun
  obtain ⟨q, -, hrun⟩ := Option.bind_eq_some_iff.1 hrun
  split at hrun <;> cases hrun
  rfl

theorem Reachable.interrupt {prompt : Bool} {fuel n : ℕ} {t : Task} {between : List Task}
    {p p' : Pool} (h : Reachable prompt p)
    (hrun : interrupt prompt fuel n t between p = some p') : Reachable prompt p' := by
  rw [Pool.interrupt] at hrun
  split_ifs at hrun with hlegal
  obtain ⟨⟨rest, s⟩, hfirst, hrun⟩ := Option.bind_eq_some_iff.1 hrun
  obtain ⟨⟨s1, owned, threads⟩, hbetween, hrun⟩ := Option.bind_eq_some_iff.1 hrun
  have hreach := ((h.step (.start hlegal.1 hlegal.2)).advance hfirst).performAll hbetween
  cases performAll_threads hbetween
  split at hrun
  · next gained s2 hlast =>
    cases hrun
    exact (hreach.advance hlast).step .finish
  · cases hrun

end Pool

end MiniMM
