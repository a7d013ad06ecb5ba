import Mathlib

/-!
# Collecting a selected field over a list of keys

Objects live in a table `val`, and the keys of the live ones form a list.
`gather sel val keys` is the multiset of what `sel` picks out of the live
objects.  Replacing one object changes the multiset in exactly one place.
-/

namespace Gather

variable {ι β γ : Type*}

/-- At most one element. -/
def opt : Option γ → Multiset γ
  | none => 0
  | some a => {a}

@[simp] theorem opt_none : opt (none : Option γ) = 0 := rfl

@[simp] theorem opt_some (a : γ) : opt (some a) = {a} := rfl

/-- What `sel` picks out of the objects named by `keys`. -/
def gather (sel : β → Option γ) (val : ι → β) (keys : List ι) : Multiset γ :=
  (keys.map fun i ↦ opt (sel (val i))).sum

variable {sel : β → Option γ} {val : ι → β} {keys : List ι} {i : ι}

@[simp] theorem gather_nil : gather sel val [] = 0 := rfl

@[simp] theorem gather_cons (i : ι) (keys : List ι) :
    gather sel val (i :: keys) = opt (sel (val i)) + gather sel val keys := by
  simp [gather]

theorem gather_congr {val' : ι → β} (h : ∀ j ∈ keys, sel (val' j) = sel (val j)) :
    gather sel val' keys = gather sel val keys := by
  unfold gather
  congr 1
  apply List.map_congr_left
  intro j hj
  rw [h j hj]

theorem mem_gather {a : γ} :
    a ∈ gather sel val keys ↔ ∃ j ∈ keys, sel (val j) = some a := by
  induction keys with
  | nil => simp
  | cons k keys ih =>
    rw [gather_cons, Multiset.mem_add, ih]
    cases hk : sel (val k) with
    | none => simp [hk]
    | some b => simp [hk, eq_comm]

variable [DecidableEq ι]

theorem gather_eq_add_erase (hi : i ∈ keys) :
    gather sel val keys = opt (sel (val i)) + gather sel val (keys.erase i) := by
  have hperm : keys.Perm (i :: keys.erase i) := List.perm_cons_erase hi
  have hsum := (hperm.map fun j ↦ opt (sel (val j))).sum_eq
  simpa [gather] using hsum

theorem gather_update_of_notMem {x : β} (hi : i ∉ keys) :
    gather sel (Function.update val i x) keys = gather sel val keys := by
  apply gather_congr
  intro j hj
  have hne : j ≠ i := fun h ↦ hi (h ▸ hj)
  rw [Function.update_of_ne hne]

theorem gather_update (hnodup : keys.Nodup) (hi : i ∈ keys) (x : β) :
    gather sel (Function.update val i x) keys =
      opt (sel x) + gather sel val (keys.erase i) := by
  rw [gather_eq_add_erase hi, Function.update_self]
  congr 1
  exact gather_update_of_notMem hnodup.not_mem_erase

theorem eq_of_gather_nodup (hn : (gather sel val keys).Nodup) {j : ι} {a : γ}
    (hi : i ∈ keys) (hj : j ∈ keys) (hia : sel (val i) = some a)
    (hja : sel (val j) = some a) : i = j := by
  by_contra hne
  have hj' : j ∈ keys.erase i := (List.mem_erase_of_ne (Ne.symm hne)).2 hj
  rw [gather_eq_add_erase hi, hia, opt_some, Multiset.nodup_add] at hn
  have hmem : a ∈ gather sel val (keys.erase i) := mem_gather.2 ⟨j, hj', hja⟩
  exact Multiset.disjoint_left.1 hn.2.2 (Multiset.mem_singleton_self a) hmem

end Gather
