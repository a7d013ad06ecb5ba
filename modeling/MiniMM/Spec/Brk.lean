import MiniMM.Brk
import MiniMM.Spec.Mapping

/-!
# Specifications of the calls on the program break
-/

namespace MiniMM

open Handle

namespace Space

variable {μ : Mode} {i : SpaceId}

theorem brkMapRange_spec (start stop : ℕ) :
    Spends μ 0 0 (fun s ↦ i < s.nextSpace) (brkMapRange i start stop) := by
  intro s x w hK hat h
  refine (mmap_spec _).next hat ⟨h, by rintro _ ⟨⟩⟩ fun r w1 hat1 hk1 _ ↦ ?_
  obtain ⟨status, mapped⟩ := r
  dsimp only
  split_ifs
  · exact (munmap_spec _ _).next hat1 (h.trans_le hk1.nextSpace)
      fun _ w2 hat2 _ _ ↦ ⟨hat2, trivial⟩
  · exact ⟨hat1, trivial⟩

theorem brkMove_spec (b : Brk) (oldEnd newEnd : ℕ) :
    Spends μ 0 0 (fun s ↦ i < s.nextSpace) (brkSetLocked.move i b oldEnd newEnd) := by
  unfold brkSetLocked.move
  refine .guard fun _ ↦ ?_
  refine .ite (fun _ ↦ brkMapRange_spec _ _) fun _ ↦ ?_
  refine .ite (fun _ ↦ munmap_spec _ _) fun _ ↦ ?_
  refine .ite (fun _ ↦ munmap_spec _ _) fun _ ↦ ?_
  intro s x w hK hat h
  refine (extendHeap_spec _ _ _).next hat h fun status w1 hat1 hk1 _ ↦ ?_
  split_ifs
  · exact brkMapRange_spec _ _ s x w1 hK hat1 (h.trans_le hk1.nextSpace)
  · exact ⟨hat1, trivial⟩

theorem brkSetLocked_spec (b : Brk) (requestedEnd : ℕ) :
    Spends μ 0 0 (fun s ↦ i < s.nextSpace) (brkSetLocked i b requestedEnd) := by
  refine .guard fun _ ↦ ?_
  intro s x w hK hat h
  exact (brkMove_spec b _ _).next hat h fun _ w1 hat1 _ _ ↦ ⟨hat1, trivial⟩

theorem withBrk_spec {α : Type} {body : Brk → Code (Status × Brk)} (result : Brk → Status × Brk → α)
    (hbody : ∀ b, Spends μ 0 0 (fun s ↦ i < s.nextSpace) (body b)) :
    Spends μ 0 0 (fun s ↦ i < s.nextSpace) (do
        let b ← .step (.lockBrk i)
        let r ← body b
        .step (.unlockBrk i r.2)
        Pure.pure (result b r)) := by
  intro s x w hK hat h
  refine lockBrk_spec.next hat h fun b w1 hat1 hk1 _ ↦ ?_
  refine (hbody b).aside hat1 (h.trans_le hk1.nextSpace)
    fun r w2 hat2 _ _ ↦ ?_
  exact (unlockBrk_spec r.2).seq (F := 0) hat2 (by simp) zero_le trivial
    fun _ w3 hat3 _ _ ↦ ⟨hat3, trivial⟩

theorem brk_spec (requestedEnd : ℕ) :
    Spends μ 0 0 (fun s ↦ i < s.nextSpace) (brk i requestedEnd) :=
  withBrk_spec (fun _ r ↦ (r.1, r.2.brkEnd)) fun b ↦ .ite (fun _ ↦ brkSetLocked_spec b _)
    fun _ ↦ .pure rfl fun _ _ ↦ trivial

theorem sbrk_spec (increment : ℤ) :
    Spends μ 0 0 (fun s ↦ i < s.nextSpace) (sbrk i increment) := by
  refine withBrk_spec (fun b r ↦ (r.1, b.brkEnd)) fun b ↦ ?_
  unfold sbrkSetLocked
  split
  · exact .pure rfl fun _ _ ↦ trivial
  · exact .ite (fun _ ↦ brkSetLocked_spec b _) fun _ ↦ .pure rfl fun _ _ ↦ trivial

end Space

end MiniMM
