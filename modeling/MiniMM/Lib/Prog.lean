import Mathlib

/-!
# Programs over atomic steps

A program is a tree of atomic steps. The same tree is run alone (`Prog.run`), interleaved with
other programs, and reasoned about by `Prog.wp`, which allows the other programs to act between
any two steps.
-/

universe u

inductive Prog (Op : Type → Type u) (α : Type) : Type (max 1 u) where
  | pure (a : α)
  | op {β : Type} (o : Op β) (k : β → Prog Op α)

namespace Prog

/-- What one atomic step can do: return, be made to wait after changing the state, stop the
process, or find a lock taken. -/
inductive Outcome (ε S β : Type) where
  | ok (b : β) (s : S)
  | again (s : S)
  | abort (e : ε)
  | blocked

variable {Op : Type → Type u} {α β γ : Type}

def bind : Prog Op α → (α → Prog Op β) → Prog Op β
  | .pure a, f => f a
  | .op o k, f => .op o fun b ↦ (k b).bind f

instance : Monad (Prog Op) where
  pure := .pure
  bind := bind

def step (o : Op α) : Prog Op α := .op o .pure

@[simp] theorem pure_bind (a : α) (f : α → Prog Op β) :
    (Pure.pure a : Prog Op α) >>= f = f a := rfl

theorem bind_assoc (p : Prog Op α) (f : α → Prog Op β) (g : β → Prog Op γ) :
    p >>= f >>= g = p >>= fun a ↦ f a >>= g := by
  induction p with
  | pure a => rfl
  | op o k ih => exact congrArg (Prog.op o) (funext ih)

/-! ## Running one program alone -/

inductive Result (ε S α : Type) where
  | done (a : α) (s : S)
  | abort (e : ε)
  | stuck

section Run

variable {S ε : Type} (exec : ∀ {β : Type}, Op β → S → Outcome ε S β)

/-- With nobody else running, a step that has to wait waits forever. -/
def run : Prog Op α → S → Result ε S α
  | .pure a, s => .done a s
  | .op o k, s =>
    match exec o s with
    | .ok b s' => run (k b) s'
    | .again _ => .stuck
    | .abort e => .abort e
    | .blocked => .stuck

theorem run_op_done {δ : Type} {o : Op δ} {k : δ → Prog Op α} {s s' : S} {a : α}
    (h : run exec (.op o k) s = .done a s') :
    ∃ b s1, exec o s = .ok b s1 ∧ run exec (k b) s1 = .done a s' := by
  rw [run] at h
  split at h
  · exact ⟨_, _, ‹_›, h⟩
  all_goals cases h

/-- What a run from `s` that ends leaves satisfies `Q`. -/
def Ends (p : Prog Op α) (s : S) (Q : α → S → Prop) : Prop :=
  ∀ a s', run exec p s = .done a s' → Q a s'

variable {exec} {s : S} {Q Q' : α → S → Prop}

theorem ends_pure {a : α} (h : Q a s) : Ends exec (Pure.pure a : Prog Op α) s Q := by
  intro _ _ hrun
  cases hrun
  exact h

theorem Ends.mono {p : Prog Op α} (h : Ends exec p s Q) (hQ : ∀ a s', Q a s' → Q' a s') :
    Ends exec p s Q' :=
  fun a s' hrun ↦ hQ a s' (h a s' hrun)

theorem Ends.and {p : Prog Op α} (h : Ends exec p s Q) (h' : Ends exec p s Q') :
    Ends exec p s fun a s' ↦ Q a s' ∧ Q' a s' :=
  fun a s' hrun ↦ ⟨h a s' hrun, h' a s' hrun⟩

theorem Ends.bind {p : Prog Op α} {f : α → Prog Op β} {R : β → S → Prop} (h : Ends exec p s Q)
    (hf : ∀ a s', Q a s' → Ends exec (f a) s' R) : Ends exec (p >>= f) s R := by
  intro b s' hrun
  induction p generalizing s with
  | pure a => exact hf a s (h a s rfl) b s' hrun
  | op o k ih =>
    obtain ⟨c, s1, hexec, hrest⟩ := run_op_done exec hrun
    refine ih c (fun a s2 hk ↦ h a s2 ?_) hrest
    simp only [run, hexec]
    exact hk

theorem ends_step {o : Op α} (h : ∀ a s', exec o s = .ok a s' → Q a s') :
    Ends exec (step o) s Q := by
  intro a s' hrun
  obtain ⟨b, s1, hexec, hrest⟩ := run_op_done exec hrun
  cases hrest
  exact h _ _ hexec

variable (exec) in
/-- Every step of the run from `s` is made in a state of which `ok` holds. -/
def Always (ok : {β : Type} → Op β → S → Prop) : Prog Op α → S → Prop
  | .pure _, _ => True
  | .op o k, s => ok o s ∧ ∀ b s', exec o s = .ok b s' → Always ok (k b) s'

end Run

/-! ## Weakest preconditions

`rely` is what the other programs can do between two steps, `legal` what a program must know
before a step, and `next` the effect of a step on the world the proofs talk about. -/

structure Rules (Op : Type → Type u) (W : Type) where
  rely : W → W → Prop
  inv : W → Prop
  legal : {β : Type} → Op β → W → Prop
  next : {β : Type} → Op β → W → β → W → Prop
  rely_refl : ∀ w, rely w w
  rely_trans : ∀ {a b c}, rely a b → rely b c → rely a c

section Wp

variable {W : Type} (R : Rules Op W)

def wp : Prog Op α → (α → W → Prop) → W → Prop
  | .pure a, Q, w => Q a w
  | .op o k, Q, w =>
    ∀ w1, R.rely w w1 → R.inv w1 →
      R.legal o w1 ∧ ∀ b w2, R.next o w1 b w2 → R.inv w2 → wp (k b) Q w2

variable {R} {Q Q' : α → W → Prop} {w w' : W}

@[simp] theorem wp_pure {a : α} : wp R (Pure.pure a : Prog Op α) Q w ↔ Q a w := Iff.rfl

theorem wp_mono {p : Prog Op α} (h : wp R p Q w) (hQ : ∀ a w', Q a w' → Q' a w') :
    wp R p Q' w := by
  induction p generalizing w with
  | pure a => exact hQ a w h
  | op o k ih =>
    intro w1 hr hi
    obtain ⟨hl, hk⟩ := h w1 hr hi
    exact ⟨hl, fun b w2 hn hi2 ↦ ih b (hk b w2 hn hi2)⟩

theorem wp_and {p : Prog Op α} (h : wp R p Q w) (h' : wp R p Q' w) :
    wp R p (fun a w' ↦ Q a w' ∧ Q' a w') w := by
  induction p generalizing w with
  | pure a => exact ⟨h, h'⟩
  | op o k ih =>
    intro w1 hr hi
    obtain ⟨hl, hk⟩ := h w1 hr hi
    obtain ⟨-, hk'⟩ := h' w1 hr hi
    exact ⟨hl, fun b w2 hn hi2 ↦ ih b (hk b w2 hn hi2) (hk' b w2 hn hi2)⟩

theorem wp_bind {p : Prog Op α} {f : α → Prog Op β} {P : β → W → Prop} :
    wp R (p >>= f) P w ↔ wp R p (fun a ↦ wp R (f a) P) w := by
  induction p generalizing w with
  | pure a => exact Iff.rfl
  | op o k ih =>
    constructor <;> intro h w1 hr hi <;> refine ⟨(h w1 hr hi).1, fun b w2 hn hi2 ↦ ?_⟩
    · exact (ih b).1 ((h w1 hr hi).2 b w2 hn hi2)
    · exact (ih b).2 ((h w1 hr hi).2 b w2 hn hi2)

/-- Sequencing: a specification of the first part, then whatever it leaves. -/
theorem wp_seq {p : Prog Op α} {f : α → Prog Op β} {P : β → W → Prop} (h : wp R p Q w)
    (hf : ∀ a w', Q a w' → wp R (f a) P w') : wp R (p >>= f) P w :=
  wp_bind.2 (wp_mono h hf)

/-- A program that still has a step to make does not notice what the others do. -/
theorem wp_op_rely {δ : Type} {o : Op δ} {k : δ → Prog Op α} (h : wp R (.op o k) Q w)
    (hr : R.rely w w') : wp R (.op o k) Q w' :=
  fun w1 hr1 hi ↦ h w1 (R.rely_trans hr hr1) hi

theorem wp_rely {p : Prog Op α} (h : wp R p Q w) (hQ : ∀ a, Q a w → Q a w') (hr : R.rely w w') :
    wp R p Q w' := by
  cases p with
  | pure a => exact hQ a h
  | op o k => exact wp_op_rely h hr

section Follow

variable {S ε : Type} {exec : ∀ {β : Type}, Op β → S → Outcome ε S β} (state : W → S) {J : W → Prop}
  (hnext : ∀ {β : Type} {o : Op β} {w : W} {b : β} {s' : S}, R.inv w → J w → R.legal o w →
    exec o (state w) = .ok b s' → ∃ w', state w' = s' ∧ R.next o w b w' ∧ R.inv w' ∧ J w')

include hnext

/-- A finished run satisfies what `wp` promises, if the world follows the state step by step. -/
theorem wp_run {p : Prog Op α} (h : wp R p Q w) (hi : R.inv w) (hJ : J w) {a : α} {s' : S}
    (hrun : run exec p (state w) = .done a s') :
    ∃ w', state w' = s' ∧ R.inv w' ∧ J w' ∧ Q a w' := by
  induction p generalizing w with
  | pure a' =>
    cases hrun
    exact ⟨w, rfl, hi, hJ, h⟩
  | op o k ih =>
    obtain ⟨b, s1, hexec, hrest⟩ := run_op_done exec hrun
    obtain ⟨hl, hk⟩ := h w (R.rely_refl w) hi
    obtain ⟨w1, rfl, hn, hi1, hJ1⟩ := hnext hi hJ hl hexec
    exact ih b (hk b w1 hn hi1) hi1 hJ1 hrest

theorem wp_always {ok : {β : Type} → Op β → S → Prop}
    (hok : ∀ {β : Type} {o : Op β} {w : W}, R.inv w → R.legal o w → ok o (state w))
    {p : Prog Op α} (h : wp R p Q w) (hi : R.inv w) (hJ : J w) :
    Always exec ok p (state w) := by
  induction p generalizing w with
  | pure a => trivial
  | op o k ih =>
    obtain ⟨hl, hk⟩ := h w (R.rely_refl w) hi
    refine ⟨hok hi hl, fun b s' hexec ↦ ?_⟩
    obtain ⟨w1, rfl, hn, hi1, hJ1⟩ := hnext hi hJ hl hexec
    exact ih b (hk b w1 hn hi1) hi1 hJ1

end Follow

end Wp

/-! ## Programs whose result does not depend on the state

A program all of whose steps are of one kind, and what it returns whatever those steps answer. -/

section Yields

variable (ok : {β : Type} → Op β → Prop) (answers : {β : Type} → Op β → β → Prop)

def Yields : Prog Op α → (α → Prop) → Prop
  | .pure a, Q => Q a
  | .op o k, Q => ok o ∧ ∀ b, answers o b → Yields (k b) Q

variable {ok} {answers} {P Q : α → Prop}

@[simp] theorem yields_pure {a : α} :
    Yields ok answers (Pure.pure a : Prog Op α) Q ↔ Q a := Iff.rfl

theorem Yields.mono {p : Prog Op α} (h : Yields ok answers p P) (hQ : ∀ a, P a → Q a) :
    Yields ok answers p Q := by
  induction p with
  | pure a => exact hQ a h
  | op o k ih => exact ⟨h.1, fun b hb ↦ ih b (h.2 b hb)⟩

theorem Yields.weaken {ok' : {β : Type} → Op β → Prop} {answers' : {β : Type} → Op β → β → Prop}
    {p : Prog Op α} (h : Yields ok answers p P) (hok : ∀ {β : Type} {o : Op β}, ok o → ok' o)
    (hanswers : ∀ {β : Type} {o : Op β} {b : β}, answers' o b → answers o b) :
    Yields ok' answers' p P := by
  induction p with
  | pure a => exact h
  | op o k ih => exact ⟨hok h.1, fun b hb ↦ ih b (h.2 b (hanswers hb))⟩

theorem wp_yields {W : Type} {R : Rules Op W} {S : α → W → Prop} {p : Prog Op α} {w : W}
    (h : wp R p S w) (hp : Yields (fun _ ↦ True) (fun _ _ ↦ True) p Q) :
    wp R p (fun a w' ↦ S a w' ∧ Q a) w := by
  induction p generalizing w with
  | pure a => exact ⟨h, hp⟩
  | op o k ih =>
    intro w1 hr hi
    obtain ⟨hl, hk⟩ := h w1 hr hi
    exact ⟨hl, fun b w2 hn hi2 ↦ ih b (hk b w2 hn hi2) (hp.2 b trivial)⟩

theorem wp_run_yields {W S ε : Type} {R : Rules Op W}
    {exec : ∀ {β : Type}, Op β → S → Outcome ε S β} (state : W → S) {J : W → Prop}
    (hnext : ∀ {β : Type} {o : Op β} {w : W} {b : β} {s' : S}, ok o → R.inv w → J w →
      R.legal o w → exec o (state w) = .ok b s' →
      ∃ w', state w' = s' ∧ R.next o w b w' ∧ R.inv w' ∧ J w')
    {p : Prog Op α} (hp : Yields ok (fun _ _ ↦ True) p fun _ ↦ True) {T : α → W → Prop} {w : W}
    (h : wp R p T w) (hi : R.inv w) (hJ : J w) {a : α} {s' : S}
    (hrun : Prog.run exec p (state w) = .done a s') :
    ∃ w', state w' = s' ∧ R.inv w' ∧ J w' ∧ T a w' := by
  induction p generalizing w with
  | pure a' =>
    cases hrun
    exact ⟨w, rfl, hi, hJ, h⟩
  | op o k ih =>
    obtain ⟨b, s1, hexec, hrest⟩ := run_op_done exec hrun
    obtain ⟨hl, hk⟩ := h w (R.rely_refl w) hi
    obtain ⟨w1, rfl, hn, hi1, hJ1⟩ := hnext hp.1 hi hJ hl hexec
    exact ih b (hp.2 b trivial) (hk b w1 hn hi1) hi1 hJ1 hrest

theorem Yields.bind {p : Prog Op α} {f : α → Prog Op β} {R : β → Prop}
    (h : Yields ok answers p P) (hf : ∀ a, P a → Yields ok answers (f a) R) :
    Yields ok answers (p >>= f) R := by
  induction p with
  | pure a => exact hf a h
  | op o k ih => exact ⟨h.1, fun b hb ↦ ih b (h.2 b hb)⟩

theorem Yields.run {S ε : Type} {exec : ∀ {β : Type}, Op β → S → Outcome ε S β} {p : Prog Op α}
    (h : Yields ok answers p Q) {good : S → Prop}
    (hgood : ∀ {β : Type} {o : Op β} {s s' : S} {b : β}, ok o → good s → exec o s = .ok b s' →
      answers o b ∧ good s') {s s' : S} (hs : good s) {a : α}
    (hrun : run exec p s = .done a s') : Q a := by
  induction p generalizing s with
  | pure b =>
    cases hrun
    exact h
  | op o k ih =>
    obtain ⟨b, s1, hexec, hrest⟩ := run_op_done exec hrun
    obtain ⟨hb, hs1⟩ := hgood h.1 hs hexec
    exact ih b (h.2 b hb) hs1 hrest

/-- `a` is what the program returns for some answers to its steps. -/
def Gives : Prog Op α → α → Prop
  | .pure b, a => b = a
  | .op _ k, a => ∃ b, Gives (k b) a

theorem Yields.gives {p : Prog Op α} (h : Yields (fun _ ↦ True) (fun _ _ ↦ True) p Q) {a : α}
    (ha : p.Gives a) : Q a := by
  induction p with
  | pure b =>
    cases ha
    exact h
  | op o k ih =>
    obtain ⟨b, hb⟩ := ha
    exact ih b (h.2 b trivial) hb

end Yields

end Prog
