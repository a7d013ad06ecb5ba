import Mathlib

/-!
# Ring buffers

The cells of a ring from a start on hold the elements of a list.  A push with
room appends to the list; a push into a full ring overwrites the oldest element.
-/

namespace Ring

variable {α : Type*} {capacity start count : ℕ} {cell : ℕ → α} {l : List α}

/-- The ring of `capacity` cells holds the elements of `l`, oldest first. -/
structure Holds (capacity : ℕ) (cell : ℕ → α) (start count : ℕ) (l : List α) : Prop where
  start_lt : start < capacity
  count_eq : count = l.length
  count_le : count ≤ capacity
  cell_eq : ∀ k, ∀ h : k < l.length, cell ((start + k) % capacity) = l[k]

theorem Holds.empty (h : 0 < capacity) : Holds capacity cell 0 0 [] :=
  ⟨h, rfl, Nat.zero_le _, fun _ hk ↦ absurd hk (Nat.not_lt_zero _)⟩

theorem Holds.map_range (h : Holds capacity cell start count l) :
    (List.range count).map (fun k ↦ cell ((start + k) % capacity)) = l := by
  apply List.ext_getElem
  · simp [h.count_eq]
  · intro k hk hk'
    simp [h.cell_eq k hk']

theorem mod_ne_mod {a b : ℕ} (hab : a < b) (hb : b < a + capacity) :
    a % capacity ≠ b % capacity := by
  intro heq
  obtain ⟨d, rfl⟩ := Nat.exists_eq_add_of_lt hab
  have hdvd : capacity ∣ d + 1 := by
    have := (Nat.modEq_iff_dvd' hab.le).mp heq
    simpa [Nat.add_assoc, Nat.add_sub_cancel_left] using this
  have := Nat.le_of_dvd (Nat.succ_pos d) hdvd
  omega

theorem Holds.push (h : Holds capacity cell start count l) (hroom : count < capacity) (a : α) :
    Holds capacity (Function.update cell ((start + count) % capacity) a) start (count + 1)
      (l ++ [a]) := by
  refine ⟨h.start_lt, by simp [h.count_eq], hroom, fun k hk ↦ ?_⟩
  have hcount := h.count_eq
  rw [List.length_append, List.length_singleton] at hk
  by_cases hlast : k = l.length
  · subst hlast
    rw [hcount, Function.update_self]
    simp
  · have hk' : k < l.length := by omega
    rw [Function.update_of_ne (mod_ne_mod (by omega) (by omega)), h.cell_eq k hk',
      List.getElem_append_left hk']

theorem Holds.overwrite (h : Holds capacity cell start count l) (hfull : count = capacity) (a : α) :
    Holds capacity (Function.update cell start a) ((start + 1) % capacity) count
      (l.tail ++ [a]) := by
  have hstart := h.start_lt
  have hcount := h.count_eq
  refine ⟨Nat.mod_lt _ (by omega), by simp; omega, h.count_le, fun k hk ↦ ?_⟩
  rw [List.length_append, List.length_singleton, List.length_tail] at hk
  have hshift : ((start + 1) % capacity + k) % capacity = (start + (k + 1)) % capacity := by
    rw [Nat.mod_add_mod]
    congr 1
    omega
  rw [hshift]
  by_cases hlast : k + 1 = l.length
  · have hturn : (start + (k + 1)) % capacity = start := by
      rw [hlast, ← hcount, hfull, Nat.add_mod_right, Nat.mod_eq_of_lt hstart]
    rw [hturn, Function.update_self, List.getElem_append_right (by simp; omega)]
    simp
  · have hk' : k + 1 < l.length := by omega
    have hne : (start + (k + 1)) % capacity ≠ start := by
      have : start % capacity ≠ (start + (k + 1)) % capacity :=
        mod_ne_mod (by omega) (by omega)
      rwa [Nat.mod_eq_of_lt hstart, ne_comm] at this
    rw [Function.update_of_ne hne, h.cell_eq (k + 1) hk',
      List.getElem_append_left (by rw [List.length_tail]; omega), List.getElem_tail]

end Ring
