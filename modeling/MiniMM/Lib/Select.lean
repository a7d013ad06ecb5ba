import Mathlib

/-!
# Taking the least element again and again

A list arranged by an injective key, and what is left of the arrangement when
its first element is taken away.
-/

namespace Select

variable {α κ : Type*} [LinearOrder κ]

/-- The elements by increasing key. -/
def byKey (key : α → κ) (l : List α) : List α :=
  l.mergeSort fun a b ↦ decide (key a ≤ key b)

variable {key key' : α → κ} {l l' : List α} {a b : α}

theorem byKey_perm (key : α → κ) (l : List α) : (byKey key l).Perm l :=
  List.mergeSort_perm _ _

@[simp] theorem byKey_nil (key : α → κ) : byKey key [] = [] := by
  simp [byKey]

@[simp] theorem mem_byKey : a ∈ byKey key l ↔ a ∈ l :=
  (byKey_perm key l).mem_iff

theorem pairwise_byKey : (byKey key l).Pairwise fun a b ↦ key a ≤ key b := by
  have h : (byKey key l).Pairwise fun a b ↦ decide (key a ≤ key b) = true := by
    apply List.pairwise_mergeSort
    · intro a b c hab hbc
      rw [decide_eq_true_eq] at hab hbc ⊢
      exact hab.trans hbc
    · intro a b
      simpa using le_total (key a) (key b)
  exact h.imp of_decide_eq_true

theorem eq_byKey (hkey : Function.Injective key) (hperm : l'.Perm l)
    (hsorted : l'.Pairwise fun a b ↦ key a ≤ key b) : l' = byKey key l := by
  refine List.Perm.eq_of_pairwise ?_ hsorted pairwise_byKey
    (hperm.trans (byKey_perm key l).symm)
  intro a b _ _ hab hba
  exact hkey (le_antisymm hab hba)

theorem byKey_filter (hkey : Function.Injective key) (p : α → Bool) :
    byKey key (l.filter p) = (byKey key l).filter p :=
  (eq_byKey hkey ((byKey_perm key l).filter p) (pairwise_byKey.filter p)).symm

/-- The least element comes first, and the arrangement of the others after it. -/
theorem byKey_eq_cons [DecidableEq α] (hkey : Function.Injective key) (ha : a ∈ l)
    (hmin : ∀ b ∈ l, key a ≤ key b) : byKey key l = a :: byKey key (l.erase a) := by
  symm
  apply eq_byKey hkey
  · exact ((byKey_perm key (l.erase a)).cons a).trans (List.perm_cons_erase ha).symm
  · refine List.pairwise_cons.mpr ⟨fun b hb ↦ ?_, pairwise_byKey⟩
    exact hmin b (List.mem_of_mem_erase (mem_byKey.mp hb))

end Select
