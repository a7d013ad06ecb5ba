import MiniMM.Lib.Prog

/-!
# Radix trees

A tree of fixed height whose nodes are arrays of `b` optional children. A key is read as `n`
digits in base `b`, the highest digit first. `get` is the finite map a tree stands for; the other
operations are specified by what they do to `get`.
-/

/-- A tree of height `n`: a value at height 0, an array of optional subtrees above. -/
def Radix (b : ℕ) (α : Type) : ℕ → Type
  | 0 => α
  | n + 1 => Fin b → Option (Radix b α n)

namespace Radix

universe u

variable {b : ℕ} [NeZero b] {α : Type}

def empty (n : ℕ) : Radix b α (n + 1) := fun _ : Fin b ↦ (none : Option (Radix b α n))

def leaf (a : α) : Radix b α 0 := a

def value (t : Radix b α 0) : α := t

def child {n : ℕ} (t : Radix b α (n + 1)) (i : Fin b) : Option (Radix b α n) := t i

def setChild {n : ℕ} (t : Radix b α (n + 1)) (i : Fin b) (c : Option (Radix b α n)) :
    Radix b α (n + 1) := fun j : Fin b ↦ if j = i then c else t.child j

/-- Position, in a node of height `n + 1`, of the subtree that holds `k`. -/
def slot (b : ℕ) [NeZero b] (n k : ℕ) : Fin b := Fin.ofNat b (k / b ^ n)

def get : (n : ℕ) → Radix b α n → ℕ → Option α
  | 0, t, _ => some t.value
  | n + 1, t, k => (t.child (slot b n k)).bind fun c ↦ get n c (k % b ^ n)

/-- Does the node that would hold `k` exist? -/
def hasLeaf : (n : ℕ) → Radix b α (n + 1) → ℕ → Prop
  | 0, _, _ => True
  | n + 1, t, k => ∃ c, t.child (slot b (n + 1) k) = some c ∧ hasLeaf n c (k % b ^ (n + 1))

/-- Store an entry in an existing lowest node. -/
def write : (n : ℕ) → Radix b α (n + 1) → ℕ → Option α → Radix b α (n + 1)
  | 0, t, k, v => t.setChild (slot b 0 k) (v.map leaf)
  | n + 1, t, k, v =>
    match t.child (slot b (n + 1) k) with
    | none => t
    | some c => t.setChild (slot b (n + 1) k) (some (write n c (k % b ^ (n + 1)) v))

def isEmpty {n : ℕ} (t : Radix b α (n + 1)) : Bool :=
  (List.finRange b).all fun i ↦ (t.child i).isNone

/-- No node below the root is empty. -/
def Pruned : (n : ℕ) → Radix b α (n + 1) → Prop
  | 0, _ => True
  | n + 1, t => ∀ i c, t.child i = some c → isEmpty c = false ∧ Pruned n c

/-- Clear an entry and drop the nodes below the root that become empty. -/
def erase : (n : ℕ) → Radix b α (n + 1) → ℕ → Radix b α (n + 1)
  | 0, t, k => t.setChild (slot b 0 k) none
  | n + 1, t, k =>
    match t.child (slot b (n + 1) k) with
    | none => t
    | some c =>
      let c' := erase n c (k % b ^ (n + 1))
      t.setChild (slot b (n + 1) k) (if isEmpty c' then none else some c')

/-- Make the nodes on the way to `k`, each with one allocation. When an allocation fails the
nodes linked so far are unlinked again, last first. -/
def grow {Op : Type → Type u} (malloc : Prog Op Bool) :
    (n : ℕ) → Radix b α (n + 1) → ℕ → Prog Op (Bool × Radix b α (n + 1))
  | 0, t, _ => pure (true, t)
  | n + 1, t, k =>
    match t.child (slot b (n + 1) k) with
    | some c => do
      let r ← grow malloc n c (k % b ^ (n + 1))
      pure (r.1, t.setChild (slot b (n + 1) k) (some r.2))
    | none => do
      let present ← malloc
      if present then do
        let r ← grow malloc n (empty n) (k % b ^ (n + 1))
        pure (r.1, t.setChild (slot b (n + 1) k) (if r.1 then some r.2 else none))
      else pure (false, t)

/-- The entries with their keys, in ascending order; `base` is the least key of the tree. -/
def entries : (n : ℕ) → Radix b α n → ℕ → List (ℕ × α)
  | 0, t, base => [(base, t.value)]
  | n + 1, t, base => (List.finRange b).flatMap fun i ↦
      ((t.child i).map fun c ↦ entries n c (base + i.val * b ^ n)).getD []

/-- Call `visitor` on every entry and its key, child by child. -/
def visit {m : Type → Type} [Monad m] (visitor : ℕ → α → m Unit) :
    (n : ℕ) → Radix b α n → ℕ → m Unit
  | 0, t, base => visitor base t.value
  | n + 1, t, base => forM (List.finRange b) fun i ↦
      match t.child i with
      | none => pure ()
      | some c => visit visitor n c (base + i.val * b ^ n)

/-- The least key in `[start, stop)` that has an entry, skipping subtrees outside the range. -/
def findNext (start stop : ℕ) : (n : ℕ) → Radix b α n → ℕ → Option ℕ
  | 0, _, base => some base
  | n + 1, t, base => (List.finRange b).findSome? fun i ↦
      if base + i.val * b ^ n + b ^ n ≤ start ∨ stop ≤ base + i.val * b ^ n then none
      else (t.child i).bind fun c ↦ findNext start stop n c (base + i.val * b ^ n)

section Child

omit [NeZero b]
variable {n : ℕ} {t : Radix b α (n + 1)} {i j : Fin b} {c : Option (Radix b α n)}

@[simp] theorem child_empty : (empty n : Radix b α (n + 1)).child i = none := rfl

@[simp] theorem child_setChild_self : (t.setChild i c).child i = c := if_pos rfl

theorem child_setChild_of_ne (h : j ≠ i) : (t.setChild i c).child j = t.child j := if_neg h

theorem setChild_eq_self (h : t.child i = c) : t.setChild i c = t := by
  funext j
  show (t.setChild i c).child j = t.child j
  by_cases hj : j = i
  · rw [hj, child_setChild_self, h]
  · exact child_setChild_of_ne hj

theorem isEmpty_iff : isEmpty t = true ↔ ∀ i, t.child i = none := by
  simp [isEmpty]

end Child

/-! ## Lookups after an update -/

theorem slot_eq_iff {n k k' : ℕ} (hk : k < b ^ (n + 1)) (hk' : k' < b ^ (n + 1)) :
    slot b n k = slot b n k' ↔ k / b ^ n = k' / b ^ n := by
  have h : ∀ j < b ^ (n + 1), j / b ^ n % b = j / b ^ n := fun j hj ↦
    Nat.mod_eq_of_lt (Nat.div_lt_of_lt_mul (by rwa [pow_succ] at hj))
  simp [slot, Fin.ext_iff, Fin.ofNat, h k hk, h k' hk']

theorem mod_lt (n k : ℕ) : k % b ^ n < b ^ n := Nat.mod_lt _ (Nat.pow_pos (Nat.pos_of_neZero b))

theorem slot_mod {n m : ℕ} (h : n < m) (k : ℕ) : slot b n (k % b ^ m) = slot b n k := by
  obtain ⟨d, rfl⟩ := Nat.exists_eq_add_of_lt h
  have hpow : b ^ (n + d + 1) = b ^ n * b ^ (d + 1) := by rw [← pow_add, add_assoc]
  rw [slot, slot, hpow, Nat.mod_mul_right_div_self]
  simp only [Fin.ofNat, pow_succ', Nat.mod_mul_right_mod]

omit [NeZero b] in
theorem mod_ne {n k k' : ℕ} (hne : k ≠ k') (h : k / b ^ n = k' / b ^ n) :
    k % b ^ n ≠ k' % b ^ n := by
  intro hm
  exact hne (by rw [← Nat.div_add_mod k (b ^ n), ← Nat.div_add_mod k' (b ^ n), h, hm])

@[simp] theorem get_empty (n k : ℕ) : get (n + 1) (empty n : Radix b α (n + 1)) k = none := rfl

theorem hasLeaf_of_get {n : ℕ} {t : Radix b α (n + 1)} {k : ℕ} {a : α}
    (h : get (n + 1) t k = some a) : hasLeaf n t k := by
  induction n generalizing k with
  | zero => trivial
  | succ n ih =>
    obtain ⟨c, hc, hget⟩ := Option.bind_eq_some_iff.1 h
    exact ⟨c, hc, ih hget⟩

theorem get_write_self {n : ℕ} {t : Radix b α (n + 1)} {k : ℕ} (h : hasLeaf n t k)
    (v : Option α) : get (n + 1) (write n t k v) k = v := by
  induction n generalizing k with
  | zero =>
    rw [write, get, child_setChild_self]
    cases v <;> rfl
  | succ n ih =>
    obtain ⟨c, hc, hleaf⟩ := h
    rw [write, hc, get]
    simpa using ih hleaf

theorem get_write_of_ne {n : ℕ} {t : Radix b α (n + 1)} {k k' : ℕ} (v : Option α)
    (hk : k < b ^ (n + 1)) (hk' : k' < b ^ (n + 1)) (hne : k ≠ k') :
    get (n + 1) (write n t k v) k' = get (n + 1) t k' := by
  induction n generalizing k k' with
  | zero =>
    have hslot : slot b 0 k' ≠ slot b 0 k := by
      rw [Ne, slot_eq_iff hk' hk]
      simpa using hne.symm
    rw [write, get, child_setChild_of_ne hslot, get]
  | succ n ih =>
    rw [write]
    split
    · rfl
    · rename_i c hc
      rw [get, get]
      by_cases hslot : slot b (n + 1) k' = slot b (n + 1) k
      · have hdiv := (slot_eq_iff hk' hk).1 hslot
        rw [hslot, hc, child_setChild_self]
        exact ih (mod_lt _ _) (mod_lt _ _) (mod_ne hne hdiv.symm)
      · rw [child_setChild_of_ne hslot]

theorem get_of_isEmpty {n : ℕ} {t : Radix b α (n + 1)} (h : isEmpty t = true) (k : ℕ) :
    get (n + 1) t k = none := by
  rw [get, isEmpty_iff.1 h]
  rfl

theorem bind_get_prune {n : ℕ} (t : Radix b α (n + 1)) (k : ℕ) :
    (if isEmpty t then none else some t).bind (fun c ↦ get (n + 1) c k) = get (n + 1) t k := by
  split
  · exact (get_of_isEmpty ‹_› k).symm
  · rfl

theorem get_erase_self {n : ℕ} (t : Radix b α (n + 1)) (k : ℕ) :
    get (n + 1) (erase n t k) k = none := by
  induction n generalizing k with
  | zero => simp [erase, get]
  | succ n ih =>
    rw [erase]
    split
    · simp [get, *]
    · rw [get, child_setChild_self, bind_get_prune]
      exact ih _ _

theorem get_erase_of_ne {n : ℕ} {t : Radix b α (n + 1)} {k k' : ℕ} (hk : k < b ^ (n + 1))
    (hk' : k' < b ^ (n + 1)) (hne : k ≠ k') :
    get (n + 1) (erase n t k) k' = get (n + 1) t k' := by
  induction n generalizing k k' with
  | zero =>
    have hslot : slot b 0 k' ≠ slot b 0 k := by
      rw [Ne, slot_eq_iff hk' hk]
      simpa using hne.symm
    rw [erase, get, child_setChild_of_ne hslot, get]
  | succ n ih =>
    rw [erase]
    split
    · rfl
    · rename_i c hc
      rw [get, get]
      by_cases hslot : slot b (n + 1) k' = slot b (n + 1) k
      · have hdiv := (slot_eq_iff hk' hk).1 hslot
        rw [hslot, hc, child_setChild_self, bind_get_prune]
        exact ih (mod_lt _ _) (mod_lt _ _) (mod_ne hne hdiv.symm)
      · rw [child_setChild_of_ne hslot]

/-! ## Pruned trees -/

theorem isEmpty_write {n : ℕ} {t : Radix b α (n + 1)} {k : ℕ} (h : hasLeaf n t k) (a : α) :
    isEmpty (write n t k (some a)) = false := by
  rw [← Bool.not_eq_true]
  intro hempty
  have hget := get_write_self h (some a)
  rw [get_of_isEmpty hempty] at hget
  cases hget

omit [NeZero b] in
theorem Pruned.setChild {n : ℕ} {t : Radix b α (n + 2)} (h : Pruned (n + 1) t) (i : Fin b)
    {o : Option (Radix b α (n + 1))} (ho : ∀ c, o = some c → isEmpty c = false ∧ Pruned n c) :
    Pruned (n + 1) (t.setChild i o) := by
  intro j c hj
  by_cases hij : j = i
  · rw [hij, child_setChild_self] at hj
    exact ho c hj
  · rw [child_setChild_of_ne hij] at hj
    exact h j c hj

omit [NeZero b] in
theorem pruned_empty (n : ℕ) : Pruned n (empty n : Radix b α (n + 1)) := by
  cases n with
  | zero => trivial
  | succ n =>
    intro i c hc
    cases hc

theorem write_of_child {n : ℕ} {t : Radix b α (n + 2)} {k : ℕ} {c : Radix b α (n + 1)}
    (hc : t.child (slot b (n + 1) k) = some c) (v : Option α) :
    write (n + 1) t k v =
      t.setChild (slot b (n + 1) k) (some (write n c (k % b ^ (n + 1)) v)) := by
  rw [write, hc]

theorem Pruned.write {n : ℕ} {t : Radix b α (n + 1)} {k : ℕ} (h : Pruned n t)
    (hleaf : hasLeaf n t k) (a : α) : Pruned n (write n t k (some a)) := by
  induction n generalizing k with
  | zero => trivial
  | succ n ih =>
    obtain ⟨c, hc, hleaf⟩ := hleaf
    rw [write_of_child hc]
    refine h.setChild _ fun c' hc' ↦ ?_
    cases hc'
    exact ⟨isEmpty_write hleaf a, ih (h _ c hc).2 hleaf⟩

theorem Pruned.erase {n : ℕ} {t : Radix b α (n + 1)} (h : Pruned n t) (k : ℕ) :
    Pruned n (erase n t k) := by
  induction n generalizing k with
  | zero => trivial
  | succ n ih =>
    rw [Radix.erase]
    split
    · exact h
    · rename_i c hc
      refine h.setChild _ fun c' hc' ↦ ?_
      split at hc'
      · cases hc'
      · cases hc'
        exact ⟨Bool.not_eq_true _ ▸ ‹_›, ih (h _ c hc).2 _⟩

/-! ## Making nodes -/

/-- What `grow` leaves: nothing on failure, the same entries and the wanted node on success. The
wanted node may be an empty one until an entry is stored in it. -/
structure Grown {n : ℕ} (t : Radix b α (n + 1)) (k : ℕ) (r : Bool × Radix b α (n + 1)) :
    Prop where
  failed : r.1 = false → r.2 = t
  leaf : r.1 = true → hasLeaf n r.2 k
  get : ∀ k', get (n + 1) r.2 k' = Radix.get (n + 1) t k'
  pruned : r.1 = true → Pruned n t → ∀ a, Pruned n (write n r.2 k (some a))

theorem Grown.pruned_write {n k : ℕ} {t : Radix b α (n + 2)} {c : Radix b α (n + 1)}
    {r : Bool × Radix b α (n + 1)} (h : Grown c (k % b ^ (n + 1)) r) (hr : r.1 = true)
    (hc : Pruned n c) (ht : Pruned (n + 1) t) (a : α) :
    Pruned (n + 1) (write (n + 1) (t.setChild (slot b (n + 1) k) (some r.2)) k (some a)) := by
  rw [write_of_child child_setChild_self]
  intro j c' hj
  by_cases hij : j = slot b (n + 1) k
  · rw [hij, child_setChild_self] at hj
    cases hj
    exact ⟨isEmpty_write (h.leaf hr) a, h.pruned hr hc a⟩
  · rw [child_setChild_of_ne hij, child_setChild_of_ne hij] at hj
    exact ht j c' hj

theorem Grown.child {n k : ℕ} {t : Radix b α (n + 2)} {c : Radix b α (n + 1)}
    {r : Bool × Radix b α (n + 1)} (hc : t.child (slot b (n + 1) k) = some c)
    (h : Grown c (k % b ^ (n + 1)) r) :
    Grown t k (r.1, t.setChild (slot b (n + 1) k) (some r.2)) := by
  refine ⟨fun hf ↦ ?_, fun ht ↦ ⟨r.2, child_setChild_self, h.leaf ht⟩, fun k' ↦ ?_,
    fun hr ht a ↦ h.pruned_write hr (ht _ c hc).2 ht a⟩
  · exact setChild_eq_self (by rw [hc, h.failed hf])
  · rw [Radix.get, Radix.get]
    by_cases hslot : slot b (n + 1) k' = slot b (n + 1) k
    · rw [hslot, hc, child_setChild_self]
      exact h.get _
    · rw [child_setChild_of_ne hslot]

theorem Grown.fresh {n k : ℕ} {t : Radix b α (n + 2)} {r : Bool × Radix b α (n + 1)}
    (hc : t.child (slot b (n + 1) k) = none) (h : Grown (empty n) (k % b ^ (n + 1)) r) :
    Grown t k (r.1, t.setChild (slot b (n + 1) k) (if r.1 then some r.2 else none)) := by
  cases hr : r.1 with
  | false =>
    have ht : t.setChild (slot b (n + 1) k) none = t := setChild_eq_self hc
    exact ⟨fun _ ↦ by simpa using ht, fun ht ↦ by simp at ht, fun k' ↦ by simp [ht],
      fun ht ↦ by simp at ht⟩
  | true =>
    refine ⟨fun hf ↦ by simp at hf, fun _ ↦ ⟨r.2, by simp, h.leaf hr⟩, fun k' ↦ ?_,
      fun _ ht a ↦ h.pruned_write hr (pruned_empty n) ht a⟩
    rw [Radix.get, Radix.get]
    by_cases hslot : slot b (n + 1) k' = slot b (n + 1) k
    · rw [hslot, hc, child_setChild_self]
      exact h.get _
    · simp [child_setChild_of_ne hslot]

theorem wp_grow {Op : Type → Type u} {W : Type} {R : Prog.Rules Op W} {malloc : Prog Op Bool}
    {I : W → Prop} (hI : ∀ w, I w → malloc.wp R (fun _ ↦ I) w) (n : ℕ) (t : Radix b α (n + 1))
    (k : ℕ) (w : W) (hw : I w) :
    (grow malloc n t k).wp R (fun r w' ↦ I w' ∧ Grown t k r) w := by
  induction n generalizing k w with
  | zero => exact ⟨hw, fun hf ↦ (by simp at hf), fun _ ↦ trivial, fun _ ↦ rfl, fun _ _ _ ↦ trivial⟩
  | succ n ih =>
    rw [grow]
    split
    · refine Prog.wp_seq (ih _ _ _ hw) fun r w' hr ↦ ?_
      exact ⟨hr.1, hr.2.child ‹_›⟩
    · refine Prog.wp_seq (hI w hw) fun present w1 hw1 ↦ ?_
      split
      · refine Prog.wp_seq (ih _ _ _ hw1) fun r w' hr ↦ ?_
        exact ⟨hr.1, hr.2.fresh ‹_›⟩
      · exact ⟨hw1, fun _ ↦ rfl, fun hf ↦ (by simp at hf), fun _ ↦ rfl, fun hf ↦ (by simp at hf)⟩

theorem yields_grow {Op : Type → Type u} {ok : {β : Type} → Op β → Prop}
    {answers : {β : Type} → Op β → β → Prop} {malloc : Prog Op Bool} {P : Bool → Prop}
    (hm : malloc.Yields ok answers P) (n : ℕ) (t : Radix b α (n + 1)) (k : ℕ) :
    (grow malloc n t k).Yields ok answers fun r ↦ Grown t k r ∧ (r.1 = false → P false) := by
  induction n generalizing k with
  | zero =>
    exact ⟨⟨fun hf ↦ (by simp at hf), fun _ ↦ trivial, fun _ ↦ rfl, fun _ _ _ ↦ trivial⟩,
      fun hf ↦ (by simp at hf)⟩
  | succ n ih =>
    rw [grow]
    split
    · exact (ih _ _).bind fun r hr ↦ ⟨hr.1.child ‹_›, hr.2⟩
    · refine hm.bind fun present hp ↦ ?_
      split
      · exact (ih _ _).bind fun r hr ↦ ⟨hr.1.fresh ‹_›, hr.2⟩
      · rw [Bool.not_eq_true] at *
        subst present
        exact ⟨⟨fun _ ↦ rfl, fun hf ↦ (by simp at hf), fun _ ↦ rfl,
          fun hf ↦ (by simp at hf)⟩, fun _ ↦ hp⟩

/-! ## Walks -/

theorem slot_add {n : ℕ} (i : Fin b) {r : ℕ} (hr : r < b ^ n) :
    slot b n (i.val * b ^ n + r) = i := by
  have hpos : 0 < b ^ n := Nat.pow_pos (Nat.pos_of_neZero b)
  have hdiv : (i.val * b ^ n + r) / b ^ n = i.val := by
    rw [mul_comm, Nat.mul_add_div hpos, Nat.div_eq_of_lt hr, add_zero]
  simp [slot, Fin.ofNat, hdiv, Nat.mod_eq_of_lt i.isLt]

theorem get_add {n : ℕ} (t : Radix b α (n + 1)) (i : Fin b) {r : ℕ} (hr : r < b ^ n) :
    get (n + 1) t (i.val * b ^ n + r) = (t.child i).bind fun c ↦ get n c r := by
  rw [get, slot_add i hr, mul_comm, Nat.mul_add_mod_self_left, Nat.mod_eq_of_lt hr]

theorem exists_eq_add {n k : ℕ} (hk : k < b ^ (n + 1)) :
    ∃ (i : Fin b) (r : ℕ), r < b ^ n ∧ k = i.val * b ^ n + r := by
  have hi : k / b ^ n < b := Nat.div_lt_of_lt_mul (by rwa [pow_succ] at hk)
  refine ⟨⟨k / b ^ n, hi⟩, k % b ^ n, mod_lt n k, ?_⟩
  rw [mul_comm, Nat.div_add_mod]

omit [NeZero b] in
theorem add_lt_pow {n : ℕ} (i : Fin b) {r : ℕ} (hr : r < b ^ n) :
    i.val * b ^ n + r < b ^ (n + 1) := by
  calc i.val * b ^ n + r < i.val * b ^ n + b ^ n := by omega
    _ = (i.val + 1) * b ^ n := by ring
    _ ≤ b * b ^ n := Nat.mul_le_mul_right _ i.isLt
    _ = b ^ (n + 1) := by ring

omit [NeZero b] in
theorem add_lt_add_of_lt {n : ℕ} {i j : Fin b} (hij : i < j) {r : ℕ} (hr : r < b ^ n) (r' : ℕ) :
    i.val * b ^ n + r < j.val * b ^ n + r' := by
  have h : (i.val + 1) * b ^ n ≤ j.val * b ^ n := Nat.mul_le_mul_right _ hij
  rw [add_mul, one_mul] at h
  omega

theorem mem_entries {n : ℕ} {t : Radix b α n} {base k : ℕ} {a : α} :
    (k, a) ∈ entries n t base ↔ ∃ r < b ^ n, k = base + r ∧ get n t r = some a := by
  induction n generalizing base with
  | zero =>
    simp only [entries, List.mem_singleton, Prod.mk.injEq, pow_zero, Nat.lt_one_iff,
      exists_eq_left, add_zero, get, Option.some.injEq]
    exact and_congr_right fun _ ↦ eq_comm
  | succ n ih =>
    simp only [entries, List.mem_flatMap, List.mem_finRange, true_and]
    constructor
    · rintro ⟨i, hi⟩
      cases hc : t.child i with
      | none => simp [hc] at hi
      | some c =>
        rw [hc] at hi
        obtain ⟨r, hr, hk, hget⟩ := ih.1 hi
        refine ⟨i.val * b ^ n + r, add_lt_pow i hr, by omega, ?_⟩
        rw [get_add t i hr, hc]
        exact hget
    · rintro ⟨k', hk', rfl, hget⟩
      obtain ⟨i, r, hr, rfl⟩ := exists_eq_add hk'
      rw [get_add t i hr] at hget
      obtain ⟨c, hc, hget⟩ := Option.bind_eq_some_iff.1 hget
      refine ⟨i, ?_⟩
      rw [hc]
      exact ih.2 ⟨r, hr, by omega, hget⟩

omit [NeZero b] in
theorem visit_eq {m : Type → Type} [Monad m] [LawfulMonad m] (visitor : ℕ → α → m Unit) {n : ℕ}
    (t : Radix b α n) (base : ℕ) :
    visit visitor n t base = forM (entries n t base) fun e ↦ visitor e.1 e.2 := by
  induction n generalizing base with
  | zero => simp [visit, entries]
  | succ n ih =>
    rw [visit, entries]
    -- the lists of the children are appended, and so are the visits
    generalize List.finRange b = children
    induction children with
    | nil => rfl
    | cons i children ihc =>
      rw [List.forM_cons, List.flatMap_cons, List.forM_append, ihc]
      cases t.child i with
      | none => rfl
      | some c => simp [ih]

theorem entries_sorted {n : ℕ} (t : Radix b α n) (base : ℕ) :
    (entries n t base).Pairwise fun x y ↦ x.1 < y.1 := by
  induction n generalizing base with
  | zero => exact List.pairwise_singleton ..
  | succ n ih =>
    refine List.pairwise_flatMap.2 ⟨fun i _ ↦ ?_, ?_⟩
    · cases hc : t.child i with
      | none => exact List.Pairwise.nil
      | some c => exact ih c _
    · refine (List.pairwise_lt_finRange b).imp fun {i j} hij ↦ ?_
      intro x hx y hy
      cases hc : t.child i with
      | none => simp [hc] at hx
      | some c =>
        cases hd : t.child j with
        | none => simp [hd] at hy
        | some d =>
          rw [hc] at hx
          rw [hd] at hy
          obtain ⟨r, hr, hxr, -⟩ := mem_entries.1 hx
          obtain ⟨r', -, hyr, -⟩ := mem_entries.1 hy
          have := add_lt_add_of_lt hij hr r'
          omega

omit [NeZero b] in
theorem findSome?_finRange {β : Type} {f : Fin b → Option β} {x : β}
    (h : (List.finRange b).findSome? f = some x) :
    ∃ i, f i = some x ∧ ∀ j < i, f j = none := by
  obtain ⟨l1, i, l2, hl, hi, hnone⟩ := List.findSome?_eq_some_iff.1 h
  refine ⟨i, hi, fun j hj ↦ hnone j ?_⟩
  have hsorted := List.pairwise_lt_finRange b
  rw [hl] at hsorted
  have hmem : j ∈ l1 ++ i :: l2 := hl ▸ List.mem_finRange j
  rcases List.mem_append.1 hmem with h1 | h2
  · exact h1
  · rcases List.mem_cons.1 h2 with rfl | h3
    · exact absurd hj (lt_irrefl _)
    · exact absurd ((List.pairwise_cons.1 (List.pairwise_append.1 hsorted).2.1).1 j h3)
        (not_lt_of_gt hj)

theorem findNext_eq_none {n start stop base : ℕ} {t : Radix b α n}
    (hover : start < base + b ^ n ∧ base < stop) (h : findNext start stop n t base = none) {r : ℕ}
    (hr : r < b ^ n) (hstart : start ≤ base + r) (hstop : base + r < stop) :
    get n t r = none := by
  induction n generalizing base r with
  | zero => cases h
  | succ n ih =>
    obtain ⟨i, r', hr', rfl⟩ := exists_eq_add hr
    have hi := List.findSome?_eq_none_iff.1 h i (List.mem_finRange i)
    rw [if_neg (by omega)] at hi
    rw [get_add t i hr']
    cases hc : t.child i with
    | none => rfl
    | some c =>
      rw [hc] at hi
      exact ih (by omega) hi hr' (by omega) (by omega)

theorem findNext_eq_some {n start stop base k : ℕ} {t : Radix b α n}
    (hover : start < base + b ^ n ∧ base < stop) (h : findNext start stop n t base = some k) :
    ∃ r < b ^ n, k = base + r ∧ start ≤ k ∧ k < stop ∧ (get n t r).isSome ∧
      ∀ r' < r, start ≤ base + r' → get n t r' = none := by
  induction n generalizing base with
  | zero =>
    cases h
    simp only [pow_zero] at hover
    exact ⟨0, by simp, rfl, by omega, by omega, rfl, fun r' hr' ↦ by omega⟩
  | succ n ih =>
    obtain ⟨i, hi, hbefore⟩ := findSome?_finRange h
    split at hi
    · cases hi
    · obtain ⟨c, hc, hnext⟩ := Option.bind_eq_some_iff.1 hi
      obtain ⟨r, hr, hk, hstart, hstop, hget, hleast⟩ := ih (by omega) hnext
      refine ⟨i.val * b ^ n + r, add_lt_pow i hr, by omega, hstart, hstop, ?_, ?_⟩
      · rw [get_add t i hr, hc]
        exact hget
      · intro k' hk' hstart'
        obtain ⟨j, r', hr', rfl⟩ := exists_eq_add (hk'.trans (add_lt_pow i hr))
        rw [get_add t j hr']
        -- a smaller key lies under an earlier child or under the same one
        rcases lt_trichotomy j i with hji | rfl | hij
        · have hj := hbefore j hji
          have hlt := add_lt_add_of_lt hji hr' r
          rw [if_neg (by omega)] at hj
          cases hd : t.child j with
          | none => rfl
          | some d =>
            rw [hd] at hj
            exact findNext_eq_none (by omega) hj hr' (by omega) (by omega)
        · rw [hc]
          exact hleast r' (by omega) (by omega)
        · exact absurd (add_lt_add_of_lt hij hr r') (by omega)

end Radix
