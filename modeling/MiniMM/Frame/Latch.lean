import MiniMM.Frame.Step

/-!
# Latched errors

A file keeps the first error of its write backs. What a section of the store reports is a status of
its own or the error of a file.
-/

namespace MiniMM

namespace FrameStore

variable {m m' m'' : FrameStore} {f : FrameId} {status : Status}

/-- From `m` to `m'` a file latches an error only where it had none, and only one that the host has
reported. -/
def Latches (m m' : FrameStore) : Prop :=
  ∀ b, (m'.file b).writebackError = (m.file b).writebackError ∨
    (m.file b).writebackError = .ok ∧ ∃ e, (m'.file b).writebackError = frameStatusFromErrno e

/-- What write backs and page-ins report whether or not a file has latched it. -/
def isOwn : Status → Bool
  | .ok | .io | .noSpace | .outOfMemory => true
  | _ => false

/-- The status is one of the store's own, or a file has latched it. -/
def Tells (m : FrameStore) (status : Status) : Prop :=
  isOwn status = true ∨ ∃ b, (m.file b).writebackError = status

namespace Latches

theorem of_file (h : m'.file = m.file) : Latches m m' := fun b ↦ .inl (by rw [h])

theorem refl (m : FrameStore) : Latches m m := of_file rfl

theorem trans (h : Latches m m') (h' : Latches m' m'') : Latches m m'' := by
  intro b
  rcases h b with hsame | ⟨hok, hnew⟩ <;> rcases h' b with hsame' | ⟨hok', hnew'⟩
  · exact .inl (hsame'.trans hsame)
  · exact .inr ⟨hsame ▸ hok', hnew'⟩
  · exact .inr ⟨hok, hsame' ▸ hnew⟩
  · exact .inr ⟨hok, hnew'⟩

theorem keeps (h : Latches m m') {b : FileId} (hb : (m.file b).writebackError ≠ .ok) :
    (m'.file b).writebackError = (m.file b).writebackError :=
  (h b).resolve_right fun hnew ↦ hb hnew.1

theorem before (h : Latches m m') {b : FileId}
    (hb : ∀ e, (m'.file b).writebackError ≠ frameStatusFromErrno e) :
    (m.file b).writebackError = (m'.file b).writebackError :=
  ((h b).resolve_right fun ⟨_, e, he⟩ ↦ hb e he).symm

theorem latch {b : FileId} {bytes : ByteFile.Bytes} (hst : status = .ok ∨
    ∃ e, status = frameStatusFromErrno e) (hfile : m'.file = Function.update m.file b
      ({ m.file b with bytes := bytes }.latchError status)) : Latches m m' := by
  intro c
  rw [hfile]
  by_cases hc : c = b
  · subst hc
    rw [Function.update_self, FileBacking.latchError]
    split
    · next hok =>
      rcases hst with rfl | hnew
      · exact .inl hok.symm
      · exact .inr ⟨hok, hnew⟩
    · exact .inl rfl
  · rw [Function.update_of_ne hc]
    exact .inl rfl

end Latches

theorem Tells.ok (m : FrameStore) : m.Tells .ok := .inl rfl

/-! ## Write back and eviction -/

theorem writePage_status (h : Host) (bytes : ByteFile.Bytes) (offset : ℕ) (data : Page) :
    (writePage h bytes offset data).1 = .ok ∨ (writePage h bytes offset data).1 = .io := by
  unfold writePage
  split_ifs
  · exact .inr rfl
  · split
    · exact .inl rfl
    · exact .inr rfl

theorem acquireSwapSlotLocked_file (m : FrameStore) (f : FrameId) :
    (m.acquireSwapSlotLocked f).2.file = m.file ∧
      isOwn (m.acquireSwapSlotLocked f).1 = true := by
  unfold acquireSwapSlotLocked
  dsimp only
  split
  · exact ⟨rfl, rfl⟩
  · exact ⟨rfl, rfl⟩
  · split_ifs
    · exact ⟨rfl, rfl⟩
    · split <;> exact ⟨rfl, rfl⟩

theorem writeBackFileLocked_latches (m : FrameStore) (f : FrameId) (data : Page) :
    Latches m (m.writeBackFileLocked f data).2 ∧
      (m.writeBackFileLocked f data).2.Tells (m.writeBackFileLocked f data).1 := by
  unfold writeBackFileLocked
  dsimp only
  by_cases hlatched : (m.file (m.frame f).fileBacking).writebackError ≠ .ok
  · rw [if_pos hlatched]
    exact ⟨.refl m, .inr ⟨_, rfl⟩⟩
  · rw [if_neg hlatched]
    have hstatus := writePage_status m.host (m.file (m.frame f).fileBacking).bytes
      (m.frame f).fileOffset data
    refine ⟨.latch (hstatus.imp_right fun hio ↦ ⟨.other, hio⟩) rfl, .inl ?_⟩
    rcases hstatus with hok | hio
    · rw [hok]
      rfl
    · rw [hio]
      rfl

theorem writeBackSwapLocked_latches (m : FrameStore) (f : FrameId) (data : Page) :
    Latches m (m.writeBackSwapLocked f data).2 ∧
      (m.writeBackSwapLocked f data).2.Tells (m.writeBackSwapLocked f data).1 := by
  unfold writeBackSwapLocked
  obtain ⟨hfile, hown⟩ := acquireSwapSlotLocked_file m f
  generalize m.acquireSwapSlotLocked f = r at hfile hown ⊢
  obtain ⟨status, m1⟩ := r
  split
  · rename_i heq
    cases heq
    refine ⟨.of_file hfile, .inl ?_⟩
    rcases writePage_status m1.host m1.swap ((m1.frame f).swapSlot.getD 0) data with hok | hio
    · rw [hok]
      rfl
    · rw [hio]
      rfl
  · rename_i heq
    cases heq
    exact ⟨.of_file hfile, .inl hown⟩

theorem writeBackLocked_latches (m : FrameStore) (f : FrameId) :
    Latches m (m.writeBackLocked f).2 ∧
      (m.writeBackLocked f).2.Tells (m.writeBackLocked f).1 := by
  unfold writeBackLocked
  dsimp only
  split
  · split_ifs
    · exact writeBackFileLocked_latches m f _
    · exact writeBackSwapLocked_latches m f _
  · exact ⟨.refl m, .ok m⟩

theorem releaseResidentSlotLocked_file (heq : m.releaseResidentSlotLocked f = .ok m') :
    m'.file = m.file := by
  unfold releaseResidentSlotLocked at heq
  dsimp only at heq
  split at heq
  · cases heq
  · split_ifs at heq
    cases heq
    rfl

theorem releaseSwapSlotLocked_file (heq : m.releaseSwapSlotLocked f = .ok m') :
    m'.file = m.file := by
  unfold releaseSwapSlotLocked at heq
  dsimp only at heq
  split at heq
  · cases heq
    rfl
  · split_ifs at heq
    cases heq
    rfl

theorem pageOutLocked_latches (heq : m.pageOutLocked f = .ok (status, m')) :
    Latches m m' ∧ (m'.Tells status ∨ status = .busy) := by
  obtain ⟨hlatches, htells⟩ := writeBackLocked_latches m f
  unfold pageOutLocked at heq
  dsimp only at heq
  split_ifs at heq
  · cases heq
    exact ⟨.of_file rfl, .inl (.ok _)⟩
  · cases heq
    exact ⟨.refl m, .inr rfl⟩
  · generalize m.writeBackLocked f = r at hlatches htells heq
    obtain ⟨st, m1⟩ := r
    dsimp only at hlatches htells
    split at heq
    · rename_i hok
      cases hok
      cases hrel : m1.releaseResidentSlotLocked f with
      | error a => rw [hrel] at heq; cases heq
      | ok m2 =>
        have hfile : m2.file = m1.file := releaseResidentSlotLocked_file hrel
        rw [hrel] at heq
        cases heq
        exact ⟨hlatches.trans (.of_file hfile), .inl (.ok _)⟩
    · rename_i hok
      cases hok
      cases heq
      exact ⟨hlatches, .inl htells⟩

theorem reclaimPageLocked_latches (heq : m.reclaimPageLocked f = .ok (status, m')) :
    Latches m m' ∧ (m'.Tells status ∨ status = .busy) := by
  unfold reclaimPageLocked at heq
  cases hout : m.pageOutLocked f with
  | error a => rw [hout] at heq; cases heq
  | ok r =>
    obtain ⟨st, m1⟩ := r
    obtain ⟨hlatches, htells⟩ := pageOutLocked_latches hout
    rw [hout] at heq
    dsimp only [Except.bind, bind] at heq
    split_ifs at heq
    · cases heq
      exact ⟨hlatches.trans (.of_file rfl), .inl (.ok _)⟩
    · cases heq
      exact ⟨hlatches, htells⟩

/-! ## Page in -/

theorem installLocked_file {data : Page} {result : PageIn}
    (heq : m.installLocked f data = (result, m')) :
    m'.file = m.file ∧ ∀ status, result ≠ .failed status := by
  unfold installLocked at heq
  split at heq <;> cases heq <;> exact ⟨rfl, nofun⟩

theorem readBackingLocked_file (m : FrameStore) (f : FrameId) :
    (m.readBackingLocked f).2.file = m.file := by
  unfold readBackingLocked
  dsimp only
  split
  · rfl
  · split_ifs <;> rfl

theorem makeResidentLocked_latches {result : PageIn}
    (heq : m.makeResidentLocked f = .ok (result, m')) :
    Latches m m' ∧ ∀ status, result = .failed status → m'.Tells status ∨ status = .busy := by
  have hread := readBackingLocked_file m f
  unfold makeResidentLocked at heq
  split_ifs at heq
  · cases heq
    exact ⟨.of_file rfl, nofun⟩
  generalize m.readBackingLocked f = r at hread heq
  obtain ⟨staged, m1⟩ := r
  cases staged with
  | none =>
    cases heq
    refine ⟨.of_file hread, ?_⟩
    rintro _ ⟨⟩
    exact .inl (.inl rfl)
  | some data =>
    dsimp only at heq hread
    split_ifs at heq
    · have hscan : (m1.selectVictimLocked (some f)).2.2.file = m.file := hread
      generalize m1.selectVictimLocked (some f) = v at hscan heq
      obtain ⟨candidate, scanned, m2⟩ := v
      dsimp only at hscan heq
      cases candidate with
      | none =>
        dsimp only at heq
        split_ifs at heq
        · cases heq
          refine ⟨.of_file hscan, ?_⟩
          rintro _ ⟨⟩
          exact .inr rfl
        · cases heq
          exact ⟨.of_file hscan, nofun⟩
      | some victim =>
        dsimp only at heq
        cases hrec : m2.reclaimPageLocked victim with
        | error a => rw [hrec] at heq; cases heq
        | ok r =>
          obtain ⟨st, m3⟩ := r
          obtain ⟨hlatches, htells⟩ := reclaimPageLocked_latches hrec
          replace hlatches := (Latches.of_file hscan).trans hlatches
          rw [hrec] at heq
          dsimp only [Except.bind, bind] at heq
          split_ifs at heq
          · obtain ⟨hfile, hfailed⟩ := installLocked_file (Except.ok.inj heq)
            exact ⟨hlatches.trans (.of_file hfile), fun st h ↦ absurd h (hfailed st)⟩
          · cases heq
            refine ⟨hlatches, ?_⟩
            rintro _ ⟨⟩
            exact htells
    · obtain ⟨hfile, hfailed⟩ := installLocked_file (Except.ok.inj heq)
      exact ⟨.of_file (hfile.trans hread), fun st h ↦ absurd h (hfailed st)⟩

/-- What a section answers to a request: a status that the store tells of, and to a read no more
than was asked for. -/
def Request.Replied (m : FrameStore) (r : Request) (reply : Reply) : Prop :=
  (m.Tells reply.status ∨ reply.status = .busy) ∧
    ∀ offset length, r = .read offset length → reply.data.length ≤ length

theorem passLocked_latches {r : Request} {reply : Option Reply}
    (heq : m.passLocked f r = .ok (reply, m')) :
    Latches m m' ∧ ∀ x ∈ reply, r.Replied m' x := by
  have hplain : ∀ {m : FrameStore} {status : Status}, (m.Tells status ∨ status = .busy) →
      r.Replied m { status := status } := fun h ↦ ⟨h, fun _ _ _ ↦ Nat.zero_le _⟩
  unfold passLocked at heq
  cases hmake : m.makeResidentLocked f with
  | error a => rw [hmake] at heq; cases heq
  | ok p =>
    obtain ⟨result, m1⟩ := p
    obtain ⟨hlatches, htells⟩ := makeResidentLocked_latches hmake
    rw [hmake] at heq
    dsimp only [Except.bind, bind] at heq
    cases result with
    | resident pagedIn =>
      dsimp only at heq
      cases r with
      | read offset length =>
        cases heq
        refine ⟨hlatches, ?_⟩
        rintro _ ⟨⟩
        refine ⟨.inl (.ok _), ?_⟩
        rintro _ _ ⟨⟩
        exact (ByteFile.slice_length _ _ _).le
      | write offset data =>
        cases heq
        refine ⟨hlatches.trans (.of_file rfl), ?_⟩
        rintro _ ⟨⟩
        exact ⟨.inl (.ok _), nofun⟩
      | ensureResident =>
        cases heq
        refine ⟨hlatches, ?_⟩
        rintro _ ⟨⟩
        exact ⟨.inl (.ok _), nofun⟩
    | failed st =>
      cases heq
      refine ⟨hlatches, ?_⟩
      rintro _ ⟨⟩
      exact hplain (htells st rfl)
    | noFreeSlot =>
      cases heq
      refine ⟨hlatches, ?_⟩
      rintro _ ⟨⟩
      exact hplain (.inr rfl)
    | waiting =>
      cases heq
      exact ⟨hlatches, nofun⟩

theorem requestLocked_latches {r : Request} {reply : Option Reply} {woken : Bool}
    (heq : m.requestLocked f r woken = .ok (reply, m')) :
    Latches m m' ∧ ∀ x ∈ reply, r.Replied m' x := by
  unfold requestLocked at heq
  split_ifs at heq
  · have hwake : m.wakeLocked.2.file = m.file := rfl
    generalize m.wakeLocked = w at hwake heq
    obtain ⟨success, m1⟩ := w
    cases success with
    | false =>
      cases heq
      refine ⟨.of_file hwake, ?_⟩
      rintro _ ⟨⟩
      exact ⟨.inr rfl, fun _ _ _ ↦ Nat.zero_le _⟩
    | true =>
      obtain ⟨hlatches, hanswered⟩ := passLocked_latches heq
      exact ⟨(Latches.of_file hwake).trans hlatches, hanswered⟩
  · exact passLocked_latches heq

/-- The request stays inside the page. -/
def Request.Inside : Request → Prop
  | .read offset length => offset + length ≤ pageSize
  | .write offset data => offset + data.length ≤ pageSize
  | .ensureResident => True

theorem request_latches {r : Request} {reply : Option Reply} {woken : Bool}
    (heq : m.request f r woken = .ok (reply, m')) :
    Latches m m' ∧ (r.Inside → ∀ x ∈ reply, r.Replied m' x) := by
  unfold request at heq
  split at heq
  · next early hearly =>
    cases heq
    refine ⟨.refl m, fun hinside x hx ↦ ?_⟩
    cases hx
    have hok : early = { status := .ok } := by
      cases r with
      | read offset length =>
        simp only [Request.Inside] at hinside
        rw [Request.early, if_neg (by omega)] at hearly
        split_ifs at hearly
        exact (Option.some.inj hearly).symm
      | write offset data =>
        simp only [Request.Inside] at hinside
        rw [Request.early, if_neg (by omega)] at hearly
        split_ifs at hearly
        exact (Option.some.inj hearly).symm
      | ensureResident => cases hearly
    subst hok
    exact ⟨.inl (.ok _), fun _ _ _ ↦ Nat.zero_le _⟩
  · obtain ⟨hlatches, hanswered⟩ := requestLocked_latches heq
    exact ⟨hlatches, fun _ ↦ hanswered⟩

/-! ## The other sections -/

theorem createFrame_latches (m : FrameStore) (source : FrameSource) (b : FileId) (offset : ℕ)
    (shared : Bool) :
    Latches m (m.createFrame source b offset shared).2.2 ∧
      ((m.createFrame source b offset shared).2.2.Tells
          (m.createFrame source b offset shared).1 ∨
        (m.createFrame source b offset shared).1 = .busy) := by
  unfold createFrame
  split
  · exact ⟨.of_file rfl, .inl (.inl rfl)⟩
  · dsimp only
    split_ifs
    · exact ⟨.of_file rfl, .inr rfl⟩
    · exact ⟨.of_file rfl, .inl (.inl rfl)⟩
    · exact ⟨.of_file rfl, .inl (.inl rfl)⟩

theorem sync_latches (m : FrameStore) (f : FrameId) :
    Latches m (m.sync f).2 ∧ (m.sync f).2.Tells (m.sync f).1 := by
  unfold sync
  dsimp only
  split_ifs
  · exact writeBackLocked_latches m f
  · exact ⟨.refl m, .ok m⟩

theorem fileBackingSync_latches (m : FrameStore) (b : FileId) :
    Latches m (m.fileBackingSync b).2 ∧ (m.fileBackingSync b).2.Tells (m.fileBackingSync b).1 := by
  unfold fileBackingSync
  dsimp only
  by_cases hlatched : (m.file b).writebackError = .ok
  · rw [if_neg (not_not.2 hlatched)]
    split
    · exact ⟨.of_file rfl, .ok _⟩
    · next e host _ =>
      refine ⟨.latch (.inr ⟨e, rfl⟩) rfl, .inr ⟨b, ?_⟩⟩
      simp [FileBacking.latchError, hlatched]
  · rw [if_pos hlatched]
    exact ⟨.refl m, .inr ⟨b, rfl⟩⟩

theorem fileBackingResize_latches (m : FrameStore) (b : FileId) (size : ℕ) :
    Latches m (m.fileBackingResize b size).2 := by
  unfold fileBackingResize
  dsimp only
  split_ifs
  · exact .refl m
  · exact .refl m
  · split
    · intro c
      by_cases hc : c = b
      · subst hc
        exact .inl (by simp)
      · exact .inl (by simp [Function.update_of_ne hc])
    · next e host _ => exact .latch (.inr ⟨e, rfl⟩) rfl

theorem reclaimLoop_latches (left : ℕ) {r r' : ReclaimResult}
    (heq : reclaimLoop left r m = .ok (r', m')) : Latches m m' := by
  induction left generalizing r m with
  | zero =>
    cases heq
    exact .refl _
  | succ left ih =>
    unfold reclaimLoop at heq
    have hscan : (m.selectVictimLocked none).2.2.file = m.file := rfl
    generalize m.selectVictimLocked none = v at hscan heq
    obtain ⟨candidate, scanned, m1⟩ := v
    dsimp only at hscan heq
    cases candidate with
    | none =>
      cases heq
      exact .of_file hscan
    | some victim =>
      dsimp only at heq
      cases hrec : m1.reclaimPageLocked victim with
      | error a => rw [hrec] at heq; cases heq
      | ok p =>
        obtain ⟨st, m2⟩ := p
        have h2 := (Latches.of_file hscan).trans (reclaimPageLocked_latches hrec).1
        rw [hrec] at heq
        dsimp only [Except.bind, bind] at heq
        split_ifs at heq
        · exact h2.trans (ih heq)
        · cases heq
          exact h2

theorem unlinkLocked_file (heq : m.unlinkLocked f = .ok m') : m'.file = m.file := by
  unfold unlinkLocked at heq
  dsimp only at heq
  split_ifs at heq
  · cases hrel : FrameStore.releaseResidentSlotLocked
      { m with frames := m.frames.erase f, frameCount := m.frameCount - 1 } f with
    | error a => rw [hrel] at heq; cases heq
    | ok m1 =>
      have hfile := releaseResidentSlotLocked_file hrel
      rw [hrel] at heq
      exact (releaseSwapSlotLocked_file heq).trans hfile
  · change FrameStore.releaseSwapSlotLocked
      { m with frames := m.frames.erase f, frameCount := m.frameCount - 1 } f = .ok m' at heq
    have hfile := releaseSwapSlotLocked_file heq
    exact hfile

theorem releaseLocked_latches (heq : m.releaseLocked f = .ok m') : Latches m m' := by
  unfold releaseLocked at heq
  dsimp only at heq
  by_cases hback : (m.frame f).source = .file ∧ (m.frame f).fileShared = true ∧
      (m.frame f).dirty = true
  · rw [if_pos hback] at heq
    have hwb := (writeBackLocked_latches m f).1
    split_ifs at heq
    · exact hwb.trans (.of_file (unlinkLocked_file heq))
    · cases heq
      exact hwb
  · rw [if_neg hback] at heq
    split_ifs at heq
    · exact .of_file (unlinkLocked_file heq)
    · cases heq
      exact .refl m

theorem exec_latches {α : Type} {o : Op α} {r : α} (heq : m.exec o = .ok (r, m')) :
    Latches m m' := by
  cases o with
  | create source b offset shared =>
    cases heq
    exact (createFrame_latches m source b offset shared).1
  | request f r' woken => exact (request_latches heq).1
  | pageOut f => exact (pageOutLocked_latches heq).1
  | reclaim target =>
    simp only [exec, reclaim] at heq
    split_ifs at heq
    · cases heq
      exact .refl m
    · exact reclaimLoop_latches target heq
  | release f =>
    simp only [exec] at heq
    cases hrel : m.releaseLocked f with
    | error a => rw [hrel] at heq; cases heq
    | ok m1 =>
      rw [hrel] at heq
      cases heq
      exact releaseLocked_latches hrel
  | map f =>
    simp only [exec, FrameStore.map] at heq
    split_ifs at heq <;> cases heq
    exact .of_file rfl
  | unmap f =>
    simp only [exec, FrameStore.unmap] at heq
    split_ifs at heq <;> cases heq
    exact .of_file rfl
  | pin site f =>
    simp only [exec, FrameStore.pin] at heq
    split_ifs at heq <;> cases heq
    exact .of_file rfl
  | unpin f =>
    simp only [exec, FrameStore.unpin] at heq
    split_ifs at heq <;> cases heq <;> exact .of_file rfl
  | tryPinResident f =>
    simp only [exec, FrameStore.tryPinResident] at heq
    split_ifs at heq <;> cases heq <;> exact .of_file rfl
  | unpinResident f =>
    simp only [exec, FrameStore.unpinResident] at heq
    split_ifs at heq <;> cases heq
    exact .of_file rfl
  | sync f =>
    have hm : (m.sync f).2 = m' := congrArg Prod.snd (Except.ok.inj heq)
    exact hm ▸ (sync_latches m f).1
  | markCold f =>
    simp only [exec, FrameStore.markCold] at heq
    split_ifs at heq <;> cases heq <;> exact .of_file rfl
  | isResident f =>
    cases heq
    exact .refl m
  | getState f =>
    cases heq
    exact .refl m
  | fileBackingResize b size =>
    have hm : (m.fileBackingResize b size).2 = m' := congrArg Prod.snd (Except.ok.inj heq)
    exact hm ▸ fileBackingResize_latches m b size
  | fileBackingSync b =>
    have hm : (m.fileBackingSync b).2 = m' := congrArg Prod.snd (Except.ok.inj heq)
    exact hm ▸ (fileBackingSync_latches m b).1
  | requestDestroy =>
    cases heq
    exact .of_file rfl

end FrameStore

end MiniMM
