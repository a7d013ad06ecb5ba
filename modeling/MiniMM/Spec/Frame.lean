import MiniMM.Logic.Triple

/-!
# Specifications of the calls into the frame store
-/

namespace MiniMM

open Handle Prog

variable {μ : Mode} {K x : Multiset Handle} {f : FrameId} {s : Sys} {w : World}

/-- The reference that comes with a frame. -/
def got (status : Status) (f : FrameId) : Multiset Handle := if status = .ok then {ref f} else 0

@[simp] theorem got_ok : got .ok f = {ref f} := if_pos rfl

theorem got_of_ne {status : Status} (h : status ≠ .ok) : got status f = 0 := if_neg h

/-! ## Single steps -/

theorem malloc_spec :
    Spends μ 0 0 (fun _ ↦ True) Code.malloc :=
  .act (fun _ _ ↦ ⟨le_rfl, trivial⟩) rfl

theorem fileCall_spec :
    Spends μ 0 0 (fun _ ↦ True) (.step .fileCall) :=
  .act (fun _ _ ↦ ⟨le_rfl, trivial⟩) rfl

theorem newFile_spec (bytes : ByteFile.Bytes) :
    Spends μ 0 0 (fun _ ↦ True) (.step (.newFile bytes)) :=
  .act (fun _ _ ↦ ⟨le_rfl, trivial⟩) rfl

theorem abort_spec (e : Abort) :
    Triple μ 0 0 (fun _ ↦ e = .noteHasChildren) (Code.abort e) (fun _ ↦ 0) fun _ _ ↦ False := by
  refine .step (fun _ _ _ h ↦ h) (fun _ _ h ↦ ⟨le_rfl, h⟩) fun _ _ _ hn _ ↦ ?_
  obtain ⟨woken, hexec⟩ := hn.exec
  cases hexec

theorem whenAbort_spec (c : Bool) (e : Abort) :
    Triple μ 0 0 (fun _ ↦ c = true → e = .noteHasChildren) (Code.when c (Code.abort e)) (fun _ ↦ 0)
      fun _ _ ↦ c = false :=
  .when (fun hc ↦ (abort_spec e).conseq (fun _ h ↦ h hc) (fun _ ↦ rfl) fun _ _ h ↦ h.elim)
    fun hc ↦ ⟨rfl, fun _ _ ↦ hc⟩

theorem retain_spec :
    Triple μ {ref f} 0 (fun _ ↦ True) (frameRetain f) (fun _ ↦ {ref f}) fun _ _ ↦ True :=
  .act (fun _ hle ↦ ⟨le_rfl, .inl (Multiset.mem_of_le hle (by simp))⟩) rfl

theorem drop_spec (site : DropSite) :
    Triple μ 0 {ref f} (fun _ ↦ True) (.step (.drop site f))
      (fun final ↦ if final = true then {last f} else 0) fun _ _ ↦ True :=
  .act (fun _ _ ↦ ⟨le_rfl, trivial⟩) (add_comm _ _)

theorem create_spec (source : FrameSource) (b : FileId) (offset : ℕ) (shared : Bool) :
    Triple μ 0 0 (fun _ ↦ True) (Code.create source b offset shared)
      (fun r ↦ got r.1 r.2) fun _ _ ↦ True :=
  .act (fun _ _ ↦ ⟨le_rfl, trivial⟩) (by simp [Sys.take, Sys.give, got])

theorem request_spec (r : FrameStore.Request) :
    Spends μ {ref f} 0 (fun _ ↦ True) (Code.request f r) :=
  .act (fun _ hle ↦ ⟨le_rfl, .inl (Multiset.mem_of_le hle (by simp))⟩) rfl

theorem store_spec {α : Type} {o : FrameStore.Op α}
    (hneeds : ∀ w : World, K ≤ w.mine → storeNeeds w o) :
    Triple μ K (storeTake o) (fun _ ↦ True) (Code.store o) (storeGive o) fun _ _ ↦ True :=
  .act (fun _ hle ↦ ⟨(add_zero _).le, hneeds _ (le_self_add.trans hle)⟩) (add_comm _ _)

theorem frame_spec {α : Type} {o : FrameStore.Op α}
    (hneeds : ∀ w : World, w.Reaches f → storeNeeds w o) :
    Triple μ {ref f} (storeTake o) (fun _ ↦ True) (Code.store o) (storeGive o) fun _ _ ↦ True :=
  store_spec fun w hw ↦ hneeds w (.inl (Multiset.singleton_le.1 hw))

theorem reclaim_spec (targetPages : ℕ) :
    Spends μ 0 0 (fun _ ↦ True) (Code.store (.reclaim targetPages)) :=
  .act (fun _ _ ↦ ⟨le_rfl, fun _ h ↦ by cases h⟩) rfl

theorem mapping_spec :
    Triple μ {ref f} 0 (fun _ ↦ True) (Code.store (.map f)) (fun _ ↦ {map f}) fun _ _ ↦ True :=
  frame_spec (o := .map f) fun _ hx g hg ↦ by cases hg; exact hx

theorem unmapping_spec :
    Spends μ {ref f} {map f} (fun _ ↦ True) (Code.store (.unmap f)) :=
  frame_spec (o := .unmap f) fun _ hx g hg ↦ by cases hg; exact hx

theorem unpin_spec :
    Spends μ {ref f} {pin f} (fun _ ↦ True) (Code.store (.unpin f)) :=
  frame_spec (o := .unpin f) fun _ hx g hg ↦ by cases hg; exact hx

theorem sync_spec :
    Spends μ {ref f} 0 (fun _ ↦ True) (Code.store (.sync f)) :=
  frame_spec (o := .sync f) fun _ hx g hg ↦ by cases hg; exact hx

/-- The pin of a frame that `minimm_page_table_replace_frame` puts in the place of another. -/
theorem pin_spec (site : FrameStore.PinSite) :
    Triple μ {ref f} 0 (fun _ ↦ True) (Code.store (.pin site f)) (fun _ ↦ {pin f})
      fun _ s ↦ μ.prompt = true → site = .replaceFrame → s.store.resident f = true := by
  refine .step (fun _ _ _ _ ↦ trivial) (fun _ hle _ ↦ ⟨le_rfl, fun g hg ↦ ?_⟩)
    fun {w w' b} hinv hle _ hn _ ↦ ⟨rfl, fun hp hsite ↦ ?_⟩
  · cases hg
    exact .inl (Multiset.mem_of_le hle (by simp))
  · obtain ⟨woken, hexec⟩ := hn.exec
    have hres := hn.prompt hp
    subst hsite
    simp only [Sys.Op.wake, Sys.exec] at hexec
    split at hexec
    · cases hexec
    · next m heq =>
      have hf : f ∈ w.sys.store.frames :=
        hinv.ref_live (Multiset.mem_of_le hle (by simp))
      injection hexec with _ hs
      rw [← hs]
      exact ((FrameStore.exec_pin hinv.store hf heq).resident f).trans hres

/-! ## Calls -/

theorem releaseAt_spec (site : DropSite) :
    Spends μ 0 {ref f} (fun _ ↦ True) (frameReleaseAt site f) := by
  intro s x w hK hat _
  refine (drop_spec site).seq (F := 0) hat rfl (by simp) trivial fun final w1 hat1 _ _ ↦ ?_
  cases final with
  | false => exact ⟨hat1, trivial⟩
  | true =>
    refine (store_spec (o := .release f) (K := 0) fun _ _ ↦ trivial).tail (F := 0) hat1 rfl
      (by simp) trivial fun _ w2 hat2 _ _ ↦ ⟨hat2, trivial⟩

theorem release_spec :
    Spends μ 0 {ref f} (fun _ ↦ True) (frameRelease f) :=
  releaseAt_spec .other

theorem frameRead_spec (offset length : ℕ) :
    Spends μ {ref f} 0 (fun _ ↦ True) (frameRead f offset length) := by
  intro s x w hK hat _
  exact (request_spec _).seq (F := 0) hat rfl (by simpa using hK) trivial
    fun _ _ hat' _ _ ↦ ⟨hat', trivial⟩

theorem frameWrite_spec (offset : ℕ) (data : List UInt8) :
    Spends μ {ref f} 0 (fun _ ↦ True) (frameWrite f offset data) := by
  intro s x w hK hat _
  exact (request_spec _).seq (F := 0) hat rfl (by simpa using hK) trivial
    fun _ _ hat' _ _ ↦ ⟨hat', trivial⟩

theorem ensureResident_spec :
    Triple μ {ref f} 0 (fun _ ↦ True) (Code.request f .ensureResident) (fun _ ↦ 0)
      fun r s ↦ r.status = .ok → s.store.resident f = true := by
  refine .step (fun _ _ _ h ↦ h)
    (fun _ hle _ ↦ ⟨le_rfl, .inl (Multiset.mem_of_le hle (by simp))⟩)
    fun {w w' r} hinv hle _ hn _ ↦ ⟨rfl, fun hok ↦ ?_⟩
  obtain ⟨woken, hexec⟩ := hn.exec
  have hf : f ∈ w.sys.store.frames := hinv.ref_live (Multiset.mem_of_le hle (by simp))
  rcases FrameStore.request_spec hinv.store hf .ensureResident woken with
    ⟨result, m, heq, hans⟩ | heq
  · have hreq : w.sys.store.exec (.request f .ensureResident woken) = .ok (result, m) := heq
    simp only [Sys.Op.wake, Sys.exec, hreq] at hexec
    cases hans with
    | early hearly => cases hearly
    | served _ _ hres hs =>
      obtain ⟨-, hw⟩ := Prog.Outcome.ok.inj hexec
      rw [← hw, FrameStore.resident, hs.residentSlot]
      exact hres
    | failed _ hne =>
      obtain ⟨hr, -⟩ := Prog.Outcome.ok.inj hexec
      exact absurd hok (hr ▸ hne)
    | waiting => cases hexec
  · have hreq : w.sys.store.exec (.request f .ensureResident woken) = .error .waiterCount := heq
    simp only [Sys.Op.wake, Sys.exec, hreq] at hexec
    cases hexec

theorem frameEnsureResident_spec :
    Triple μ {ref f} 0 (fun _ ↦ True) (frameEnsureResident f) (fun _ ↦ 0)
      fun r s ↦ r.1 = .ok → s.store.resident f = true := by
  intro s x w hK hat _
  exact ensureResident_spec.seq (F := 0) hat rfl (by simpa using hK) trivial
    fun _ _ hat' _ hres ↦ ⟨hat', hres⟩

theorem frameCopyInto_spec {make : Code (Status × FrameId)}
    (hmake : Triple μ 0 0 (fun _ ↦ True) make (fun r ↦ got r.1 r.2) fun _ _ ↦ True) :
    Triple μ {ref f} 0 (fun _ ↦ True) (frameCopyInto f make) (fun r ↦ got r.1 r.2)
      fun _ _ ↦ True := by
  intro s x w hK hat _
  refine (frameRead_spec _ _).seq (F := 0) hat rfl (by simpa using hK) trivial ?_
  rintro ⟨status, data⟩ w1 hat1 - -
  dsimp only
  split_ifs with hstatus
  · exact ⟨hat1.congr (got_of_ne hstatus).symm, trivial⟩
  refine hmake.seq (F := 0) hat1 rfl (by simp) trivial ?_
  rintro ⟨status, copy⟩ w2 hat2 - -
  dsimp only at hat2 ⊢
  split_ifs with hstatus
  · rw [got_of_ne hstatus] at hat2
    exact ⟨hat2.congr (got_of_ne hstatus).symm, trivial⟩
  rw [not_not.1 hstatus, got_ok, add_zero] at hat2
  refine (frameWrite_spec _ _).seq (F := {ref copy}) hat2 (zero_add _).symm le_self_add trivial ?_
  rintro status w3 hat3 - -
  split_ifs with hstatus
  · refine release_spec.seq (F := 0) hat3 (add_comm _ _) zero_le trivial fun _ w4 hat4 _ _ ↦ ?_
    exact ⟨hat4.congr (got_of_ne hstatus).symm, trivial⟩
  · exact ⟨hat3.congr (by simp), trivial⟩

theorem frameCopy_spec :
    Triple μ {ref f} 0 (fun _ ↦ True) (frameCopy f) (fun r ↦ got r.1 r.2) fun _ _ ↦ True :=
  frameCopyInto_spec (create_spec _ _ _ _)

theorem frameCopyFile_spec (b : FileId) (fileOffset : ℕ) :
    Triple μ {ref f} 0 (fun _ ↦ True) (frameCopyFile f b fileOffset) (fun r ↦ got r.1 r.2)
      fun _ _ ↦ True :=
  frameCopyInto_spec (create_spec _ _ _ _)

theorem ensureOrRelease_spec {α : Type} (failed : Status → α) (done : α)
    {G : α → Multiset Handle} (hfailed : ∀ status, status ≠ .ok → G (failed status) = 0)
    (hdone : G done = {ref f}) :
    Triple μ 0 {ref f} (fun _ ↦ True)
      (do
        let (status, _) ← frameEnsureResident f
        if status ≠ .ok then do
          frameRelease f
          Pure.pure (failed status)
        else Pure.pure done)
      G fun _ _ ↦ True := by
  intro s x w hK hat _
  refine frameEnsureResident_spec.seq (F := {ref f}) hat (zero_add _).symm le_self_add trivial ?_
  rintro ⟨status, pagedIn⟩ w1 hat1 - -
  dsimp only
  split_ifs with hstatus
  · refine release_spec.seq (F := 0) hat1 (add_comm _ _) zero_le trivial fun _ w2 hat2 _ _ ↦ ?_
    exact ⟨hat2.congr (hfailed status hstatus).symm, trivial⟩
  · exact ⟨hat1.congr ((zero_add _).trans hdone.symm), trivial⟩

end MiniMM
