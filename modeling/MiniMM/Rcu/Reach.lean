import MiniMM.Lib.Tally
import MiniMM.Rcu

/-!
# No snapshot is reclaimed under a reader

What a step can do is said once, by what it changes of the thread that makes it; the invariants of
all interleavings follow from that.
-/

namespace MiniMM

namespace Rcu

/-! ## What the proofs need to know of a thread -/

structure View where
  /-- Is the thread one of the `readers`? -/
  count : ℕ := 0
  loaded : Option Object := none
  /-- The number of readers that `minimm_rcu_read_unlock` expects. -/
  expected : ℕ := 1
  locked : Bool := false
  /-- An unpublished object that only this thread knows. -/
  own : Option Object := none
  /-- What the thread has taken from the queue. -/
  taken : List Object := []
  /-- The thread has seen `readers` at zero, after its own object was unpublished and after
  everything it has taken was queued. -/
  passed : Bool := false
  /-- The thread has seen `readers` at zero and is about to take the queue. -/
  taking : Bool := false

def View.Holds (v : View) (o : Object) : Prop := v.own = some o ∨ o ∈ v.taken

/-- How often the thread holds an object. -/
def View.places (v : View) (o : Object) : ℕ := v.own.toList.count o + v.taken.count o

theorem View.Holds.pos {v : View} {o : Object} (h : v.Holds o) : 0 < v.places o := by
  rcases h with h | h
  · simp [View.places, h]
  · have := List.count_pos_iff.2 h
    simp only [View.places]
    omega

def Phase.view : Phase → View
  | .idle | .readLock _ | .signalLock | .pollLock | .aborted => {}
  | .reading loaded => { count := 1, loaded := loaded }
  | .readUnlock previous loaded => { count := 1, loaded := loaded, expected := previous }
  | .signal | .signalUnlock | .retireUnlock | .pollLoad => { locked := true }
  | .retire old | .retireLock old => { own := some old }
  | .retireLink old => { locked := true, own := some old }
  | .pollTake => { locked := true, passed := true, taking := true }
  | .pollUnlock taken => { locked := true, taken := taken, passed := true }
  | .syncLock old | .syncWait old | .syncWoken old => { own := old }
  | .syncLoad old => { locked := true, own := old }
  | .syncTake old => { locked := true, own := old, passed := true, taking := true }
  | .syncUnlock taken old => { locked := true, own := old, taken := taken, passed := true }
  | .reclaim taken old => { own := old, taken := taken, passed := true }

namespace State

variable {ι : Type} {s s' : State ι} {t : ι}

def view (s : State ι) (t : ι) : View := (s.phase t).view

/-- How often an object is found outside the threads. -/
def places (s : State ι) (o : Object) : ℕ :=
  s.published.toList.count o + s.retired.count o + s.reclaimed.count o

/-- What a step changes: `v` and `v'` are the views of its thread before and after. -/
structure Change (s s' : State ι) (t : ι) (v v' : View) : Prop where
  readers : s'.readers + v.count = s.readers + v'.count
  lock : (s'.lock = s.lock ∧ v'.locked = v.locked) ∨
    (s.lock = none ∧ s'.lock = some t ∧ v'.locked = true) ∨
    (v.locked = true ∧ s'.lock = none ∧ v'.locked = false)
  objects : ∀ o, s'.places o + v'.places o + (if o < s.nextObject then 1 else 0) =
    s.places o + v.places o + (if o < s'.nextObject then 1 else 0)
  loaded : ∀ o, v'.loaded = some o → v.loaded = some o ∨ (s.published = some o ∧ v.count = 1)
  expected : 0 < v'.expected ∨ (v'.expected = s.readers ∧ v.count = 1)
  /-- The queue changes under the lock. -/
  retired : v.locked = false → s'.retired = s.retired
  linked : ∀ o ∈ s'.linked, o ∈ s.linked ∨ o ∈ s'.retired
  /-- Nothing leaves the way from the queue to the callback. -/
  kept : ∀ o, o ∈ s.retired ∨ o ∈ v.taken ∨ o ∈ s.reclaimed →
    o ∈ s'.retired ∨ o ∈ v'.taken ∨ o ∈ s'.reclaimed
  taking : v'.taking = true → s.readers = 0
  passed : v'.passed = true → s.readers = 0 ∨
    ∀ o, v'.Holds o → v.passed = true ∧ (v.Holds o ∨ (o ∈ s.retired ∧ v.taking = true))
  reclaimed : ∀ o ∈ s'.reclaimed, o ∈ s.reclaimed ∨ (v.passed = true ∧ v.Holds o)

/-- The step of a thread leaves the views of the others. -/
structure Effect (s s' : State ι) (t : ι) : Prop where
  others : ∀ u, u ≠ t → s'.view u = s.view u
  change : Change s s' t (s.view t) (s'.view t)

variable [DecidableEq ι]

theorem Effect.goto {s1 : State ι} {p p' : Phase} (hp : s.phase t = p)
    (hothers : ∀ u, u ≠ t → (s1.phase u).view = (s.phase u).view)
    (h : Change s s1 t p.view p'.view) : Effect s (s1.goto t p') t := by
  refine ⟨fun u hu ↦ ?_, ?_⟩
  · simpa [State.view, State.goto, hu] using hothers u hu
  · have hv : s.view t = p.view := by rw [State.view, hp]
    have hv' : (s1.goto t p').view t = p'.view := by simp [State.view, State.goto]
    rw [hv, hv']
    exact ⟨h.readers, h.lock, h.objects, h.loaded, h.expected, h.retired, h.linked, h.kept,
      h.taking, h.passed, h.reclaimed⟩

theorem view_wake (p : Phase) : (wake p).view = p.view := by
  cases p <;> rfl

omit [DecidableEq ι] in
theorem Change.quiet {v v' : View} {l : Option ι} {f : ι → Phase}
    (hlock : (l = s.lock ∧ v'.locked = v.locked) ∨
      (s.lock = none ∧ l = some t ∧ v'.locked = true) ∨
      (v.locked = true ∧ l = none ∧ v'.locked = false))
    (hown : v'.own = v.own) (htaken : v'.taken = v.taken)
    (hpassed : v'.passed = true → v.passed = true) (hcount : v'.count = v.count)
    (hloaded : v'.loaded = v.loaded) (hexpected : v'.expected = 1) (htaking : v'.taking = false) :
    Change s { s with lock := l, phase := f } t v v' where
  readers := by rw [hcount]
  lock := hlock
  objects o := by rw [View.places, View.places, hown, htaken]; rfl
  loaded o ho := .inl (hloaded ▸ ho)
  expected := .inl (by rw [hexpected]; exact Nat.one_pos)
  retired _ := rfl
  linked o ho := .inl ho
  kept o ho := by rwa [htaken]
  taking h := by rw [htaking] at h; cases h
  passed h := .inr fun o ho ↦ ⟨hpassed h, .inl (by rwa [View.Holds, hown, htaken] at ho)⟩
  reclaimed o ho := .inl ho

theorem acquire_effect {p p' : Phase} (hp : s.phase t = p) (h : s.acquire t p' = some s')
    (hview : p'.view = { p.view with locked := true }) (hexpected : p.view.expected = 1)
    (htaking : p.view.taking = false) : Effect s s' t := by
  simp only [acquire] at h
  split at h <;> cases h
  refine .goto hp (fun _ _ ↦ rfl) (.quiet (.inr (.inl ⟨‹_›, rfl, ?_⟩)) ?_ ?_ ?_ ?_ ?_ ?_ ?_)
  all_goals simp [hview, hexpected, htaking]

theorem release_effect {p p' : Phase} (hp : s.phase t = p) (hlocked : p.view.locked = true)
    (hview : p'.view = { p.view with locked := false }) (hexpected : p.view.expected = 1)
    (htaking : p.view.taking = false) : Effect s (s.release t p') t := by
  refine .goto hp (fun _ _ ↦ rfl) (.quiet (.inr (.inr ⟨hlocked, rfl, ?_⟩)) ?_ ?_ ?_ ?_ ?_ ?_ ?_)
  all_goals simp [hview, hexpected, htaking]

theorem goto_effect {p p' : Phase} (hp : s.phase t = p) (hview : p'.view = p.view)
    (hexpected : p.view.expected = 1) (htaking : p.view.taking = false) :
    Effect s (s.goto t p') t := by
  refine .goto hp (fun _ _ ↦ rfl) (.quiet (.inl ⟨rfl, ?_⟩) ?_ ?_ ?_ ?_ ?_ ?_ ?_)
  all_goals simp [hview, hexpected, htaking]

theorem proceed_effect {success : Bool} {p : Phase} (hp : s.phase t = p)
    (hpos : 0 < p.view.expected) (h : s.proceed t success p = some s') : Effect s s' t := by
  cases p with
  | idle | reading _ | aborted => cases h
  | readLock readers =>
    simp only [proceed] at h
    split at h
    · cases h
      exact goto_effect hp rfl rfl rfl
    · split at h <;> cases h
      · refine .goto hp (fun _ _ ↦ rfl) ?_
        constructor <;> grind [Phase.view, places, View.places, View.Holds]
      · exact goto_effect hp rfl rfl rfl
  | readUnlock previous loaded =>
    simp only [proceed] at h
    have hpos : 0 < previous := hpos
    rw [if_neg (by omega)] at h
    split at h <;> cases h <;> refine .goto hp (fun _ _ ↦ rfl) ?_
    · split <;> constructor <;> grind [Phase.view, places, View.places, View.Holds]
    · constructor <;> grind [Phase.view, places, View.places, View.Holds]
  | signal =>
    cases h
    exact .goto hp (fun u _ ↦ view_wake _) (.quiet (.inl ⟨rfl, rfl⟩) rfl rfl id rfl rfl rfl rfl)
  | signalLock | retireLock _ | pollLock | syncLock _ | syncWoken _ =>
    exact acquire_effect hp h rfl rfl rfl
  | signalUnlock | retireUnlock | pollUnlock _ | syncUnlock _ _ =>
    cases h
    exact release_effect hp rfl rfl rfl rfl
  | retire old =>
    cases h
    exact goto_effect hp (by split <;> rfl) rfl rfl
  | syncWait old =>
    cases h
    exact goto_effect hp rfl rfl rfl
  | syncLoad old =>
    simp only [proceed] at h
    split at h <;> cases h
    · exact release_effect hp rfl rfl rfl rfl
    · refine .goto hp (fun _ _ ↦ rfl) ?_
      constructor <;> grind [Phase.view, places, View.places]
  | pollLoad =>
    cases h
    refine .goto hp (fun _ _ ↦ rfl) ?_
    split <;> constructor <;> grind [Phase.view, places, View.places, View.Holds]
  | retireLink _ | pollTake | syncTake _ =>
    cases h
    refine .goto hp (fun _ _ ↦ rfl) ?_
    constructor <;> grind [Phase.view, places, View.places, View.Holds]
  | reclaim taken old =>
    cases taken with
    | nil =>
      cases old <;> cases h <;> refine .goto hp (fun _ _ ↦ rfl) ?_ <;>
        constructor <;> grind [Phase.view, places, View.places, View.Holds]
    | cons o taken =>
      cases h
      refine .goto hp (fun _ _ ↦ rfl) ?_
      constructor <;> grind [Phase.view, places, View.places, View.Holds]

theorem enter_effect {c : Call} (hp : s.phase t = .idle) : Effect s (s.enter t c) t := by
  cases c with
  | readLock | poll | synchronize => exact goto_effect hp rfl rfl rfl
  | publish =>
    refine .goto hp (fun _ _ ↦ rfl) ?_
    cases hpublished : s.published <;> constructor <;>
      grind [Phase.view, places, View.places, View.Holds]

theorem step_effect {a : Action} (hpos : 0 < (s.view t).expected) (h : s.step t a = some s') :
    Effect s s' t := by
  simp only [step] at h
  split at h
  · cases h
    exact enter_effect ‹_›
  · cases h
    refine .goto ‹_› (fun _ _ ↦ rfl) ?_
    constructor <;> grind [Phase.view, places, View.places]
  · cases h
    refine .goto ‹_› (fun _ _ ↦ rfl) ?_
    constructor <;> grind [Phase.view, places, View.places]
  · exact proceed_effect rfl hpos h
  · cases h

/-! ## Invariants of all interleavings -/

omit [DecidableEq ι] in
theorem count_of_loaded {o : Object} (h : (s.view t).loaded = some o) : (s.view t).count = 1 := by
  unfold State.view at *
  cases hp : s.phase t <;> simp_all [Phase.view]

omit [DecidableEq ι] in
theorem locked_of_taking (h : (s.view t).taking = true) : (s.view t).locked = true := by
  unfold State.view at *
  cases hp : s.phase t <;> simp_all [Phase.view]

/-- The object is reclaimed, or on its way there behind a thread that has seen no reader. -/
def Doomed (s : State ι) (o : Object) : Prop :=
  o ∈ s.reclaimed ∨ (∃ t, (s.view t).passed = true ∧ (s.view t).Holds o) ∨
    (o ∈ s.retired ∧ ∃ t, (s.view t).taking = true)

variable [Fintype ι]

structure Inv (s : State ι) : Prop where
  readers : s.readers = ∑ t, (s.view t).count
  lock : ∀ t, (s.view t).locked = true ↔ s.lock = some t
  /-- Every object made so far is in exactly one place. -/
  objects : ∀ o, s.places o + ∑ t, (s.view t).places o = if o < s.nextObject then 1 else 0
  expected : ∀ t, 0 < (s.view t).expected
  linked : ∀ o ∈ s.linked, o ∈ s.retired ∨ (∃ t, o ∈ (s.view t).taken) ∨ o ∈ s.reclaimed
  unread : ∀ o, s.Doomed o → ∀ t, (s.view t).loaded ≠ some o

omit [DecidableEq ι] in
theorem inv_init : Inv (init : State ι) where
  readers := by simp [init, State.view, Phase.view]
  lock t := by simp [init, State.view, Phase.view]
  objects o := by
    simp only [init, State.view, Phase.view, places, View.places]
    by_cases h : o = 0 <;> simp [h, eq_comm]
  expected t := Nat.one_pos
  linked o ho := by cases ho
  unread o _ t := by simp [init, State.view, Phase.view]

theorem Inv.readers_pos (h : Inv s) (ht : (s.view t).count = 1) : 0 < s.readers := by
  have hle : (s.view t).count ≤ ∑ u, (s.view u).count :=
    Tally.le_sum (f := fun u ↦ (s.view u).count) (Finset.mem_univ t)
  rw [h.readers]
  omega

theorem Inv.places_le (h : Inv s) (t : ι) (o : Object) : s.places o + (s.view t).places o ≤ 1 := by
  have hle : (s.view t).places o ≤ ∑ u, (s.view u).places o :=
    Tally.le_sum (f := fun u ↦ (s.view u).places o) (Finset.mem_univ t)
  have := h.objects o
  split at this <;> omega

theorem Inv.not_doomed (h : Inv s) {o : Object} (ho : s.published = some o) : ¬ s.Doomed o := by
  have hone : s.published.toList.count o = 1 := by simp [ho]
  have hall := h.objects o
  rintro (hr | ⟨t, -, ht⟩ | ⟨hr, -⟩)
  · have := List.count_pos_iff.2 hr
    simp only [places] at hall
    split at hall <;> omega
  · have hle := h.places_le t o
    have := ht.pos
    simp only [places] at hle
    omega
  · have := List.count_pos_iff.2 hr
    simp only [places] at hall
    split at hall <;> omega

theorem Effect.sum_view (he : Effect s s' t) {M : Type} [AddCommMonoid M] (f : View → M) :
    ∑ u, f (s'.view u) + f (s.view t) = ∑ u, f (s.view u) + f (s'.view t) :=
  Tally.sum_change (f := fun u ↦ f (s'.view u)) (g := fun u ↦ f (s.view u)) (Finset.mem_univ t)
    fun u hu ↦ congrArg f (he.others u hu)

section Step

variable (h : Inv s) (he : Effect s s' t)
include h he

theorem Effect.doomed {o : Object} (ho : s'.Doomed o) : s.Doomed o ∨ s.readers = 0 := by
  rcases ho with hr | ⟨u, hpassed, hholds⟩ | ⟨hr, u, htaking⟩
  · rcases he.change.reclaimed o hr with hr | ⟨hpassed, hholds⟩
    · exact .inl (.inl hr)
    · exact .inl (.inr (.inl ⟨t, hpassed, hholds⟩))
  · by_cases hu : u = t
    · subst hu
      rcases he.change.passed hpassed with hzero | hkept
      · exact .inr hzero
      · obtain ⟨hpassed, hholds | ⟨hr, htaking⟩⟩ := hkept o hholds
        · exact .inl (.inr (.inl ⟨u, hpassed, hholds⟩))
        · exact .inl (.inr (.inr ⟨hr, u, htaking⟩))
    · rw [he.others u hu] at hpassed hholds
      exact .inl (.inr (.inl ⟨u, hpassed, hholds⟩))
  · by_cases hu : u = t
    · subst hu
      exact .inr (he.change.taking htaking)
    · rw [he.others u hu] at htaking
      -- the other thread has the lock, so this step leaves the queue alone
      have hlock := (h.lock u).1 (locked_of_taking htaking)
      have hfree : (s.view t).locked = false := by
        rw [← Bool.not_eq_true, h.lock t, hlock]
        exact fun heq ↦ hu (Option.some.inj heq)
      rw [he.change.retired hfree] at hr
      exact .inl (.inr (.inr ⟨hr, u, htaking⟩))

theorem Effect.unread {o : Object} (ho : s'.Doomed o) (u : ι) : (s'.view u).loaded ≠ some o := by
  intro hloaded
  have hbefore : (s.view u).loaded = some o ∨ (s.published = some o ∧ (s.view u).count = 1) := by
    by_cases hu : u = t
    · subst hu
      exact he.change.loaded o hloaded
    · exact .inl (he.others u hu ▸ hloaded)
  have hcount : (s.view u).count = 1 := hbefore.elim count_of_loaded And.right
  have hpos := h.readers_pos hcount
  rcases he.doomed h ho with hdoomed | hzero
  · rcases hbefore with hloaded | ⟨hpublished, -⟩
    · exact h.unread o hdoomed u hloaded
    · exact h.not_doomed hpublished hdoomed
  · omega

theorem Effect.lock (u : ι) : (s'.view u).locked = true ↔ s'.lock = some u := by
  have hold := h.lock u
  have hmine := h.lock t
  by_cases hu : u = t
  · subst hu
    rcases he.change.lock with ⟨h1, h2⟩ | ⟨-, h1, h2⟩ | ⟨-, h1, h2⟩
    · rw [h1, h2, hold]
    · simp [h1, h2]
    · simp [h1, h2]
  · rw [he.others u hu, hold]
    rcases he.change.lock with ⟨h1, -⟩ | ⟨h1, h2, -⟩ | ⟨h1, h2, -⟩
    · rw [h1]
    · simp [h1, h2, Ne.symm hu]
    · simp [h2, hmine.1 h1, Ne.symm hu]

theorem Effect.linked {o : Object} (ho : o ∈ s'.linked) :
    o ∈ s'.retired ∨ (∃ u, o ∈ (s'.view u).taken) ∨ o ∈ s'.reclaimed := by
  have hkept : o ∈ s.retired ∨ o ∈ (s.view t).taken ∨ o ∈ s.reclaimed →
      o ∈ s'.retired ∨ (∃ u, o ∈ (s'.view u).taken) ∨ o ∈ s'.reclaimed := fun hin ↦
    (he.change.kept o hin).imp_right (Or.imp_left fun ht ↦ ⟨t, ht⟩)
  rcases he.change.linked o ho with hl | hr
  · rcases h.linked o hl with hr | ⟨u, hu⟩ | hr
    · exact hkept (.inl hr)
    · by_cases hut : u = t
      · exact hkept (.inr (.inl (hut ▸ hu)))
      · exact .inr (.inl ⟨u, he.others u hut ▸ hu⟩)
    · exact hkept (.inr (.inr hr))
  · exact .inl hr

theorem Inv.step : Inv s' where
  readers := by
    have hsum := he.sum_view View.count
    have hstep := he.change.readers
    have hold := h.readers
    omega
  lock := he.lock h
  objects o := by
    have hsum := he.sum_view fun v ↦ v.places o
    have hstep := he.change.objects o
    have hold := h.objects o
    omega
  expected u := by
    by_cases hu : u = t
    · subst hu
      rcases he.change.expected with hpos | ⟨heq, hcount⟩
      · exact hpos
      · exact heq ▸ h.readers_pos hcount
    · rw [he.others u hu]
      exact h.expected u
  linked o := he.linked h
  unread o ho := he.unread h ho

end Step

theorem Reachable.inv (h : Reachable s) : Inv s := by
  induction h with
  | init => exact inv_init
  | step _ hstep ih => exact ih.step (step_effect (ih.expected _) hstep)

omit [Fintype ι] in
theorem Reachable.run (h : Reachable s) (steps : List (ι × Action))
    (hrun : steps.foldlM (fun s x ↦ s.step x.1 x.2) s = some s') : Reachable s' := by
  induction steps generalizing s with
  | nil =>
    cases hrun
    exact h
  | cons x steps ih =>
    obtain ⟨s1, hstep, hrest⟩ := Option.bind_eq_some_iff.1 hrun
    exact ih (h.step hstep) hrest

/-- In every state that any interleaving reaches: a reader that has loaded a snapshot and has not
left its section still finds it, no snapshot is reclaimed twice, and a snapshot that was ever
retired is in exactly one place of the queue, the lists that threads have taken from it and the
reclaimed snapshots. -/
theorem reachable_reclaim (h : Reachable s) :
    (∀ t o, s.phase t = .reading (some o) ∨ (∃ n, s.phase t = .readUnlock n (some o)) →
      o ∉ s.reclaimed) ∧
    s.reclaimed.Nodup ∧
    ∀ o ∈ s.linked,
      s.retired.count o + ∑ t, (s.phase t).view.taken.count o + s.reclaimed.count o = 1 := by
  have hinv := h.inv
  -- nothing is in two places
  have hplaces : ∀ o, s.retired.count o + ∑ t, (s.phase t).view.taken.count o +
      s.reclaimed.count o ≤ 1 := by
    intro o
    have hle : ∑ t, (s.phase t).view.taken.count o ≤ ∑ t, (s.view t).places o :=
      Finset.sum_le_sum fun t _ ↦ Nat.le_add_left _ _
    have hall := hinv.objects o
    simp only [places] at hall
    split at hall <;> omega
  refine ⟨fun t o ht hr ↦ ?_, List.nodup_iff_count_le_one.2 fun o ↦ ?_, fun o ho ↦ ?_⟩
  · refine hinv.unread o (.inl hr) t ?_
    rcases ht with ht | ⟨n, ht⟩ <;> rw [State.view, ht] <;> rfl
  · have := hplaces o
    omega
  · have := hplaces o
    rcases hinv.linked o ho with hr | ⟨t, ht⟩ | hr
    · have := List.count_pos_iff.2 hr
      omega
    · have hpos := List.count_pos_iff.2 ht
      have hle : (s.phase t).view.taken.count o ≤ ∑ u, (s.phase u).view.taken.count o :=
        Tally.le_sum (f := fun u ↦ (s.phase u).view.taken.count o) (Finset.mem_univ t)
      simp only [State.view] at hpos
      omega
    · have := List.count_pos_iff.2 hr
      omega

/-- A reader loads the second snapshot while an updater retires the first one and reclaims it. -/
theorem reachable_reclaim_twoThreads : ∃ s : State (Fin 2), Reachable s ∧
    s.phase 1 = .reading (some 1) ∧ s.linked = [0] ∧ s.reclaimed = [0] ∧ 1 ∉ s.reclaimed := by
  obtain ⟨s, hs, hphase, hlinked, hreclaimed⟩ : ∃ s : State (Fin 2), Reachable s ∧
      s.phase 1 = .reading (some 1) ∧ s.linked = [0] ∧ s.reclaimed = [0] :=
    ⟨_, Reachable.run .init ((0, .call .publish) :: List.replicate 7 (0, .proceed true) ++
      [(1, .call .readLock), (1, .proceed true), (1, .load), (0, .proceed true),
        (0, .proceed true)]) rfl, rfl, rfl, rfl⟩
  exact ⟨s, hs, hphase, hlinked, hreclaimed, (reachable_reclaim hs).1 1 1 (.inl hphase)⟩

end State

end Rcu

end MiniMM
