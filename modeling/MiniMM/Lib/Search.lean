import Mathlib

/-!
# Binary search

The loop that halves an interval until it has found where a predicate turns from true to false.
-/

namespace Search

/-- The loop over `[low, high)`; `fuel` bounds the number of rounds. -/
def loop (p : ℕ → Bool) : ℕ → ℕ → ℕ → ℕ
  | 0, low, _ => low
  | fuel + 1, low, high =>
    if low < high then
      let middle := low + (high - low) / 2
      if p middle then loop p fuel (middle + 1) high else loop p fuel low middle
    else low

/-- The first index below `n` at which `p` fails, and `n` if there is none. -/
def partitionPoint (p : ℕ → Bool) (n : ℕ) : ℕ := loop p n 0 n

/-- Once the predicate fails it fails for good. -/
def Descends (p : ℕ → Bool) (n : ℕ) : Prop := ∀ i j, i ≤ j → j < n → p j = true → p i = true

theorem loop_spec {p : ℕ → Bool} {n : ℕ} (hp : Descends p n) {fuel low high : ℕ}
    (hfuel : high - low ≤ fuel) (hlow : low ≤ high) (hhigh : high ≤ n)
    (hbelow : ∀ i < low, p i = true) (habove : ∀ i, high ≤ i → i < n → p i = false) :
    loop p fuel low high ≤ n ∧ (∀ i < loop p fuel low high, p i = true) ∧
      ∀ i, loop p fuel low high ≤ i → i < n → p i = false := by
  induction fuel generalizing low high with
  | zero =>
    obtain rfl : low = high := by omega
    exact ⟨hhigh, hbelow, habove⟩
  | succ fuel ih =>
    rw [loop]
    split
    · dsimp only
      split
      · rename_i hlt hmid
        refine ih (by omega) (by omega) hhigh (fun i hi ↦ ?_) habove
        exact hp i _ (by omega) (by omega) hmid
      · rename_i hlt hmid
        refine ih (by omega) (by omega) (by omega) hbelow fun i hi hin ↦ ?_
        by_contra hne
        exact hmid (hp _ i hi hin (by simpa using hne))
    · obtain rfl : low = high := by omega
      exact ⟨hhigh, hbelow, habove⟩

theorem partitionPoint_spec {p : ℕ → Bool} {n : ℕ} (hp : Descends p n) :
    partitionPoint p n ≤ n ∧ (∀ i < partitionPoint p n, p i = true) ∧
      ∀ i, partitionPoint p n ≤ i → i < n → p i = false :=
  loop_spec hp (by omega) (Nat.zero_le n) le_rfl (by omega) (by omega)

/-- Searching a list for the first element that fails a test which fails for good. -/
theorem getElem?_partitionPoint {α : Type*} {xs : List α} {q : α → Bool}
    (hq : Descends (fun i ↦ ((xs[i]?).map q).getD false) xs.length) :
    xs[partitionPoint (fun i ↦ ((xs[i]?).map q).getD false) xs.length]? =
      xs.find? fun x ↦ !q x := by
  obtain ⟨hle, hbelow, habove⟩ := partitionPoint_spec hq
  generalize partitionPoint (fun i ↦ ((xs[i]?).map q).getD false) xs.length = k at *
  have hbelow' : ∀ i (hi : i < k), q (xs[i]) = true := fun i hi ↦ by
    have := hbelow i hi
    rwa [List.getElem?_eq_getElem (by omega), Option.map_some, Option.getD_some] at this
  symm
  rcases Nat.lt_or_eq_of_le hle with hlt | rfl
  · rw [List.getElem?_eq_getElem hlt, List.find?_eq_some_iff_getElem]
    have := habove k le_rfl hlt
    rw [List.getElem?_eq_getElem hlt, Option.map_some, Option.getD_some] at this
    refine ⟨by rw [this]; rfl, k, hlt, rfl, fun j hj ↦ ?_⟩
    rw [hbelow' j hj]
    rfl
  · rw [List.getElem?_eq_none le_rfl, List.find?_eq_none]
    intro x hx
    obtain ⟨i, hi, rfl⟩ := List.getElem_of_mem hx
    rw [hbelow' i hi]
    decide

end Search
