import Mathlib

/-!
# Counters and tokens

A family of counters tallies with a multiset of tokens if each counter is the number of its tokens,
wherever those are kept. An operation that changes counters and tokens alike keeps the tally.
-/

namespace Tally

variable {X M : Type*}

theorem sum_change {ι : Type*} [DecidableEq ι] [AddCommMonoid M] {f g : ι → M} {s : Finset ι}
    {k : ι} (hk : k ∈ s) (h : ∀ j, j ≠ k → f j = g j) :
    ∑ j ∈ s, f j + g k = ∑ j ∈ s, g j + f k := by
  rw [← Finset.add_sum_erase _ _ hk, ← Finset.add_sum_erase _ g hk,
    Finset.sum_congr rfl fun j hj ↦ h j (Finset.ne_of_mem_erase hj)]
  abel

theorem le_sum {ι : Type*} [DecidableEq ι] [AddCommMonoid M] [PartialOrder M]
    [CanonicallyOrderedAdd M] {f : ι → M} {s : Finset ι} {k : ι} (hk : k ∈ s) :
    f k ≤ ∑ j ∈ s, f j := by
  rw [← Finset.add_sum_erase _ _ hk]
  exact le_self_add

variable [DecidableEq X]

/-- Each counter is the number of its tokens. -/
def Tallies (count : X → ℕ) (tokens : Multiset X) : Prop := ∀ x, count x = tokens.count x

variable {count count' : X → ℕ} {tokens tokens' up down : Multiset X} {x : X}

theorem Tallies.change (h : Tallies count tokens)
    (hcount : ∀ x, count' x + down.count x = count x + up.count x)
    (htokens : tokens' + down = tokens + up) : Tallies count' tokens' := by
  intro x
  have hx := congrArg (Multiset.count x) htokens
  rw [Multiset.count_add, Multiset.count_add] at hx
  have hc := hcount x
  rw [h x] at hc
  omega

theorem Tallies.congr (h : Tallies count tokens) (hcount : ∀ x, count' x = count x)
    (htokens : tokens' = tokens) : Tallies count' tokens' := by
  intro x
  rw [hcount, htokens, h x]

theorem Tallies.pos (h : Tallies count tokens) (hx : x ∈ tokens) : 0 < count x := by
  rw [h x]
  exact Multiset.count_pos.2 hx

theorem Tallies.count_le (h : Tallies count tokens) (hle : up ≤ tokens) : up.count x ≤ count x := by
  rw [h x]
  exact Multiset.count_le_of_le x hle

end Tally
