import MiniMM.Lib.Prog

/-!
# Programs that fail or succeed

A program that can fail on its way gets to its end under a condition on the state it starts in.
The rules collect that condition step by step.
-/

universe u

namespace Prog

variable {Op : Type → Type u} {α β S ε : Type} {exec : ∀ {β : Type}, Op β → S → Outcome ε S β}
  {p q : Prog Op α} {f : α → Prog Op β} {s : S} {C C' : Prop} {B : α → Prop}
  {B' : β → Prop} {Q : α → S → Prop} {R : β → S → Prop}

variable (exec) in
/-- A run from `s` that ends leaves what `Q` says if `C` holds, and is a failure if not. -/
def Decides (p : Prog Op α) (s : S) (C : Prop) (B : α → Prop) (Q : α → S → Prop) : Prop :=
  Ends exec p s fun a s' ↦ C ∧ Q a s' ∨ ¬C ∧ B a

theorem Ends.accepts (h : Ends exec p s Q) (hc : C) : Decides exec p s C B Q :=
  h.mono fun _ _ hQ ↦ .inl ⟨hc, hQ⟩

theorem Ends.refuses (h : Ends exec p s fun a _ ↦ B a) (hc : ¬C) :
    Decides exec p s C B Q :=
  h.mono fun _ _ hbad ↦ .inr ⟨hc, hbad⟩

namespace Decides

theorem congr (h : Decides exec p s C B Q) (hc : C ↔ C') :
    Decides exec p s C' B Q :=
  propext hc ▸ h

/-- Both parts have to succeed, the second when the first has. -/
theorem bind (h : Decides exec p s C B Q)
    (hf : C → ∀ a s', Q a s' → Decides exec (f a) s' C' B' R)
    (hbad : ∀ a s', B a → Ends exec (f a) s' fun b _ ↦ B' b) :
    Decides exec (p >>= f) s (C ∧ C') B' R := by
  refine Ends.bind h ?_
  rintro a s' (⟨hc, hQ⟩ | ⟨hc, ha⟩)
  · exact (hf hc a s' hQ).congr (and_iff_right hc).symm
  · exact (hbad a s' ha).refuses fun h ↦ hc h.1

/-- The second part cannot fail after a success of the first. -/
theorem seq (h : Decides exec p s C B Q) (hf : ∀ a s', Q a s' → Ends exec (f a) s' R)
    (hbad : ∀ a s', B a → Ends exec (f a) s' fun b _ ↦ B' b) :
    Decides exec (p >>= f) s C B' R :=
  (h.bind (fun _ a s' hQ ↦ (hf a s' hQ).accepts trivial) hbad).congr (and_iff_left trivial)

end Decides

/-- A check on the way. -/
theorem decides_ite {c : Prop} [Decidable c] (hp : c → Ends exec p s fun a _ ↦ B a)
    (hq : ¬c → Decides exec q s C B Q) :
    Decides exec (if c then p else q) s (¬c ∧ C) B Q := by
  split_ifs with hc
  · exact (hp hc).refuses fun h ↦ h.1 hc
  · exact (hq hc).congr (and_iff_right hc).symm

end Prog
