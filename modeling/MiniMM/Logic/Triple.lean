import MiniMM.Logic.Step

/-!
# Specifications of code

A specification says which handles a piece of code needs but gives back untouched (`K`), which it
uses up (`H`) and which it returns (`G`). What belongs to the caller stays as it was.
-/

namespace MiniMM

open Handle Prog

theorem Sys.Op.exists_wake {β : Type} (o : Sys.Op β) : ∃ woken, o.wake woken = o := by
  cases o with
  | request f r woken => exact ⟨woken, rfl⟩
  | _ => exact ⟨false, rfl⟩

/-- The thread in view has come from `s` to `w` and owns `H`; what `x` stands for has not
changed. -/
structure At (μ : Mode) (s : Sys) (x H : Multiset Handle) (w : World) : Prop where
  inv : Inv μ w
  mine : w.mine = H + x
  keeps : Keeps x s w.sys

def Triple (μ : Mode) (K H : Multiset Handle) (P : Sys → Prop) {α : Type} (p : Code α)
    (G : α → Multiset Handle) (Q : α → Sys → Prop) : Prop :=
  ∀ s x w, K ≤ x → At μ s x H w → P w.sys →
    wp (rules μ) p (fun r w' ↦ At μ s x (G r) w' ∧ Q r w'.sys) w

/-- The code uses up `H`, and no more is said of it. -/
abbrev Spends (μ : Mode) (K H : Multiset Handle) (P : Sys → Prop) {α : Type} (p : Code α) : Prop :=
  Triple μ K H P p (fun _ ↦ 0) fun _ _ ↦ True

variable {μ : Mode} {K H H' F x : Multiset Handle} {P : Sys → Prop} {α β : Type}
  {p : Code α} {G : α → Multiset Handle} {Q : α → Sys → Prop} {s : Sys} {w : World}

namespace At

theorem refl (hinv : Inv μ w) (hmine : w.mine = H + x) : At μ w.sys x H w :=
  ⟨hinv, hmine, .refl⟩

theorem congr (h : At μ s x H w) (hH : H = H') : At μ s x H' w := hH ▸ h

theorem le (h : At μ s x H w) : H ≤ w.mine := by
  rw [h.mine]
  exact le_self_add

theorem frame_le (h : At μ s x H w) : x ≤ w.mine := by
  rw [h.mine]
  exact le_add_left le_rfl

end At

namespace Triple

theorem seq (h : Triple μ K H P p G Q) {f : α → Code β} {R : β → World → Prop}
    (hat : At μ s x H' w) (hH : H' = H + F) (hK : K ≤ F + x) (hP : P w.sys)
    (hf : ∀ r w', At μ s x (G r + F) w' → Keeps (F + x) w.sys w'.sys → Q r w'.sys →
      wp (rules μ) (f r) R w') : wp (rules μ) (p >>= f) R w := by
  have hmine : w.mine = H + (F + x) := by rw [hat.mine, hH, add_assoc]
  refine wp_seq (h w.sys (F + x) w hK (.refl hat.inv hmine) hP) ?_
  rintro r w' ⟨hat', hQ⟩
  refine hf r w' ⟨hat'.inv, ?_, ?_⟩ hat'.keeps hQ
  · rw [hat'.mine, add_assoc]
  · exact hat.keeps.trans (hat'.keeps.mono (le_add_left le_rfl))

section

variable {f : α → Code β} {R : β → World → Prop}

/-- The code uses all that the caller owns. -/
theorem first (h : Triple μ 0 H P p G Q) (hat : At μ s x H w) (hP : P w.sys)
    (hf : ∀ r w', At μ s x (G r + 0) w' → Keeps (0 + x) w.sys w'.sys → Q r w'.sys →
      wp (rules μ) (f r) R w') : wp (rules μ) (p >>= f) R w :=
  h.seq hat (add_zero _).symm zero_le hP hf

theorem next (h : Triple μ 0 H P p G Q) (hat : At μ s x (H + 0) w) (hP : P w.sys)
    (hf : ∀ r w', At μ s x (G r + 0) w' → Keeps (0 + x) w.sys w'.sys → Q r w'.sys →
      wp (rules μ) (f r) R w') : wp (rules μ) (p >>= f) R w :=
  h.seq hat rfl zero_le hP hf

/-- The code uses nothing of what the caller owns. -/
theorem aside (h : Triple μ 0 0 P p G Q) (hat : At μ s x F w) (hP : P w.sys)
    (hf : ∀ r w', At μ s x (G r + F) w' → Keeps (F + x) w.sys w'.sys → Q r w'.sys →
      wp (rules μ) (f r) R w') : wp (rules μ) (p >>= f) R w :=
  h.seq hat (zero_add _).symm zero_le hP hf

end

theorem tail (h : Triple μ K H P p G Q) {R : α → World → Prop}
    (hat : At μ s x H' w) (hH : H' = H + F) (hK : K ≤ F + x) (hP : P w.sys)
    (hf : ∀ r w', At μ s x (G r + F) w' → Keeps (F + x) w.sys w'.sys → Q r w'.sys → R r w') :
    wp (rules μ) p R w := by
  have hmine : w.mine = H + (F + x) := by rw [hat.mine, hH, add_assoc]
  refine wp_mono (h w.sys (F + x) w hK (.refl hat.inv hmine) hP) ?_
  rintro r w' ⟨hat', hQ⟩
  refine hf r w' ⟨hat'.inv, ?_, ?_⟩ hat'.keeps hQ
  · rw [hat'.mine, add_assoc]
  · exact hat.keeps.trans (hat'.keeps.mono (le_add_left le_rfl))

theorem last (h : Triple μ 0 H P p G Q) (hat : At μ s x H' w) (hH : H' = H + 0) (hP : P w.sys) :
    wp (rules μ) p (fun r w' ↦ At μ s x (G r) w' ∧ True) w :=
  h.tail hat hH zero_le hP fun _ _ hat' _ _ ↦ ⟨hat'.congr (add_zero _), trivial⟩

theorem relied {w1 : World} (hrely : (rules μ).rely w w1) :
    w1.mine = w.mine ∧ Keeps w.mine w.sys w1.sys := by
  change (if μ.alone then w1 = w else Interference w w1) at hrely
  split_ifs at hrely
  · subst hrely
    exact ⟨rfl, .refl⟩
  · exact ⟨hrely.mine, hrely.keeps⟩

theorem step {o : Sys.Op α}
    (hstable : ∀ {w : World} {s' : Sys}, Inv μ w → K + H ≤ w.mine → Keeps (K + H) w.sys s' →
      P w.sys → P s')
    (hlegal : ∀ {w : World}, Inv μ w → K + H ≤ w.mine → P w.sys →
      w.sys.take o + w.sys.uses o ≤ H ∧ needs μ w o)
    (hnext : ∀ {w w' : World} {b : α}, Inv μ w → K + H ≤ w.mine → P w.sys → Next μ o w b w' →
      Inv μ w' → G b + w.sys.take o = H + w.sys.give o b ∧ Q b w'.sys) :
    Triple μ K H P (.step o) G Q := by
  intro s x w hK hat hP w1 hrely hinv1
  obtain ⟨hmine1, hkeeps1⟩ := relied hrely
  have hle : K + H ≤ w.mine := by
    rw [hat.mine, add_comm K]
    gcongr
  have hP1 : P w1.sys := hstable hat.inv hle (hkeeps1.mono hle) hP
  rw [← hmine1] at hle
  obtain ⟨hown, hneeds⟩ := hlegal hinv1 hle hP1
  refine ⟨⟨hown.trans ((le_add_left le_rfl).trans hle), hneeds⟩, fun b w2 hn hinv2 ↦ ?_⟩
  obtain ⟨hgive, hQ⟩ := hnext hinv1 hle hP1 hn hinv2
  refine ⟨⟨hinv2, ?_, ?_⟩, hQ⟩
  · refine add_right_cancel (b := w1.sys.take o) ?_
    calc w2.mine + w1.sys.take o = H + x + w1.sys.give o b := by
          rw [hn.mine, hmine1, hat.mine]
      _ = H + w1.sys.give o b + x := by abel
      _ = G b + x + w1.sys.take o := by
          rw [← hgive]
          abel
  · obtain ⟨woken, hexec⟩ := hn.exec
    have hx : x ≤ w.mine := hat.frame_le
    refine (hat.keeps.trans (hkeeps1.mono hx)).trans (hinv1.keeps ?_ hneeds hexec)
    calc w1.sys.take o + w1.sys.uses o + x ≤ H + x := by gcongr
      _ = w1.mine := by rw [hmine1, hat.mine]
      _ ≤ w1.mine + w1.others := le_self_add

theorem act {o : Sys.Op α}
    (hlegal : ∀ {w : World}, Inv μ w → K + H ≤ w.mine →
      w.sys.take o + w.sys.uses o ≤ H ∧ needs μ w o)
    (hgive : ∀ {s : Sys} {b : α}, G b + s.take o = H + s.give o b) :
    Triple μ K H (fun _ ↦ True) (.step o) G fun _ _ ↦ True :=
  step (fun _ _ _ _ ↦ trivial) (fun hinv hle _ ↦ hlegal hinv hle) fun _ _ _ _ _ ↦ ⟨hgive, trivial⟩

theorem and {P' : Sys → Prop} {Q' : α → Sys → Prop} (h : Triple μ K H P p G Q)
    (h' : Triple μ K H P' p G Q') :
    Triple μ K H (fun s ↦ P s ∧ P' s) p G fun r s ↦ Q r s ∧ Q' r s := by
  intro s x w hK hat hP
  refine wp_mono (wp_and (h s x w hK hat hP.1) (h' s x w hK hat hP.2)) ?_
  rintro r w' ⟨⟨hat', hQ⟩, -, hQ'⟩
  exact ⟨hat', hQ, hQ'⟩

theorem pure {a : α} (hG : G a = H) (hQ : ∀ s, P s → Q a s) :
    Triple μ K H P (Pure.pure a) G Q := by
  intro s x w _ hat hP
  exact ⟨hat.congr hG.symm, hQ _ hP⟩

theorem ite {c : Prop} [Decidable c] {q : Code α} (hp : c → Triple μ K H P p G Q)
    (hq : ¬c → Triple μ K H P q G Q) : Triple μ K H P (if c then p else q) G Q := by
  split_ifs with hc
  · exact hp hc
  · exact hq hc

theorem guard {c : Prop} [Decidable c] {a : α} (hp : ¬c → Spends μ K 0 P p) :
    Spends μ K 0 P (if c then Pure.pure a else p) :=
  .ite (fun _ ↦ .pure rfl fun _ _ ↦ trivial) hp

theorem when {c : Bool} {p : Code Unit} {G : Unit → Multiset Handle} {Q : Unit → Sys → Prop}
    (hp : c = true → Triple μ K H P p G Q)
    (hn : c = false → G () = H ∧ ∀ s, P s → Q () s) : Triple μ K H P (Code.when c p) G Q := by
  rw [Code.when]
  split_ifs with hc
  · exact hp hc
  · obtain ⟨hG, hQ⟩ := hn (by simpa using hc)
    exact pure hG hQ

theorem conseq {P' : Sys → Prop} {G' : α → Multiset Handle} {Q' : α → Sys → Prop}
    (h : Triple μ K H P p G Q) (hP : ∀ s, P' s → P s) (hG : ∀ r, G' r = G r)
    (hQ : ∀ r s, Q r s → Q' r s) : Triple μ K H P' p G' Q' := by
  intro s x w hK hat hP'
  refine wp_mono (h s x w hK hat (hP _ hP')) ?_
  rintro r w' ⟨hat', hQ'⟩
  exact ⟨hat'.congr (hG r).symm, hQ r _ hQ'⟩

theorem pre {P' : Sys → Prop} (h : Triple μ K H P p G Q) (hP : ∀ s, P' s → P s) :
    Triple μ K H P' p G Q :=
  h.conseq hP (fun _ ↦ rfl) fun _ _ h ↦ h

theorem post {Q' : α → Sys → Prop} (h : Triple μ K H P p G Q) (hQ : ∀ r s, Q r s → Q' r s) :
    Triple μ K H P p G Q' :=
  h.conseq (fun _ h ↦ h) (fun _ ↦ rfl) hQ

theorem borrow {K' : Multiset Handle} (h : Triple μ K H P p G Q) (hK : K ≤ K') :
    Triple μ K' H P p G Q :=
  fun s x w hK' ↦ h s x w (hK.trans hK')

theorem returns {S : α → Prop} (h : Triple μ K H P p G Q) (hp : Code.Returns p S) :
    Triple μ K H P p G fun r s ↦ Q r s ∧ S r := by
  intro s x w hK hat hP
  refine wp_mono (wp_yields (h s x w hK hat hP) hp) ?_
  rintro r w' ⟨⟨hat', hQ⟩, hS⟩
  exact ⟨hat', hQ, hS⟩

theorem next_of_exec {β : Type} {o : Sys.Op β} {b : β} {s' : Sys} {y : Multiset Handle}
    (hprompt : μ.prompt = false) (hinv : Inv μ w) (hothers : w.others = y)
    (hlegal : (rules μ).legal o w) (hexec : w.sys.exec o = .ok b s') :
    ∃ w', w'.sys = s' ∧ Next μ o w b w' ∧ Inv μ w' ∧ w'.others = y := by
  obtain ⟨woken, hwoken⟩ := o.exists_wake
  have hn : Next μ o w b ⟨s', w.mine - w.sys.take o + w.sys.give o b, w.others⟩ := by
    refine ⟨⟨woken, by rw [hwoken, hexec]⟩, ?_, rfl, fun h ↦ ?_⟩
    · dsimp only
      rw [add_right_comm, tsub_add_cancel_of_le (le_self_add.trans hlegal.1)]
    · rw [hprompt] at h
      cases h
  exact ⟨_, rfl, hn, hinv.next hlegal hn, hothers⟩

section Alone

variable (h : Triple μ K H P p G Q) (hprompt : μ.prompt = false) {o : Multiset Handle}
  (hK : K ≤ F) (hinv : Inv μ ⟨s, H + F, o⟩) (hP : P s)

include h hprompt hK hinv hP

theorem ends : Code.Ends p s fun r s' ↦
    Inv μ ⟨s', G r + F, o⟩ ∧ Keeps F s s' ∧ Q r s' := by
  intro r s' hrun
  obtain ⟨⟨s1, m, o'⟩, rfl, -, rfl, hat, hQ⟩ := wp_run (J := fun w ↦ w.others = o) World.sys
    (next_of_exec hprompt) (h s F ⟨s, H + F, o⟩ hK (.refl hinv rfl) hP) hinv rfl hrun
  have hm := hat.mine
  dsimp only at hm
  subst hm
  exact ⟨hat.inv, hat.keeps, hQ⟩

theorem always {ok : {β : Type} → Sys.Op β → Sys → Prop}
    (hok : ∀ {β : Type} {o : Sys.Op β} {w : World}, Inv μ w → (rules μ).legal o w → ok o w.sys) :
    Prog.Always (fun o s ↦ s.exec o) ok p s :=
  wp_always (J := fun w ↦ w.others = o) World.sys (next_of_exec hprompt) hok
    (h s F ⟨s, H + F, o⟩ hK (.refl hinv rfl) hP) hinv rfl

end Alone

end Triple

/-- The count that a step gives up has been taken. -/
def Sys.Counted {β : Type} : Sys.Op β → Sys → Prop
  | .store (.unmap f), s => (s.store.frame f).mappings ≠ 0
  | .store (.unpin f), s => (s.store.frame f).pinCount ≠ 0
  | .store (.unpinResident f), s => (s.store.frame f).transientPinCount ≠ 0
  | .drop _ f, s => s.refs f ≠ 0
  | _, _ => True

theorem Inv.counted {o : Sys.Op β} (h : Inv μ w) (hlegal : (rules μ).legal o w) :
    Sys.Counted o w.sys := by
  have hpos : ∀ {x : Handle}, {x} ≤ w.sys.take o → w.sys.count x ≠ 0 := fun hx ↦
    (h.pos (Multiset.mem_of_le ((hx.trans le_self_add).trans hlegal.1)
      (Multiset.mem_singleton_self _))).ne'
  cases o with
  | store q =>
    cases q with
    | unmap f => exact hpos (x := .map f) le_rfl
    | unpin f => exact hpos (x := .pin f) le_rfl
    | unpinResident f => exact hpos (x := .transient f) le_rfl
    | _ => trivial
  | drop site f => exact hpos (x := .ref f) le_rfl
  | _ => trivial

/-- A run that gives up no count that has not been taken. -/
@[irreducible] def Code.Counted (p : Code α) (s : Sys) : Prop :=
  Prog.Always (fun o s ↦ s.exec o) (fun o s ↦ Sys.Counted o s) p s

theorem Triple.counted (h : Triple μ K H P p G Q) (hprompt : μ.prompt = false)
    {o : Multiset Handle} (hK : K ≤ F) (hinv : Inv μ ⟨s, H + F, o⟩) (hP : P s) :
    p.Counted s := by
  rw [Code.Counted]
  exact h.always hprompt hK hinv hP fun hinv hlegal ↦ hinv.counted hlegal

end MiniMM
