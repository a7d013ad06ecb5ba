import Mathlib

/-!
# Machine words

Additions and subtractions of words wrap. `Traced` follows a computation and remembers whether one
of its operations has wrapped, so that `f x = pure v` says that none has.
-/

namespace Word

variable {w : ℕ} {a b : BitVec w}

@[ext] structure Traced (α : Type) where
  value : α
  wrapped : Bool
  deriving DecidableEq, Repr

namespace Traced

variable {α β : Type}

instance : Monad Traced where
  pure a := ⟨a, false⟩
  bind x f := ⟨(f x.value).value, x.wrapped || (f x.value).wrapped⟩

@[simp] theorem pure_bind (a : α) (f : α → Traced β) : (pure a : Traced α) >>= f = f a := rfl

@[simp] theorem value_pure (a : α) : (pure a : Traced α).value = a := rfl

@[simp] theorem wrapped_pure (a : α) : (pure a : Traced α).wrapped = false := rfl

@[simp] theorem value_bind (x : Traced α) (f : α → Traced β) :
    (x >>= f).value = (f x.value).value := rfl

@[simp] theorem wrapped_bind (x : Traced α) (f : α → Traced β) :
    (x >>= f).wrapped = (x.wrapped || (f x.value).wrapped) := rfl

end Traced

def add (a b : BitVec w) : Traced (BitVec w) := ⟨a + b, a.uaddOverflow b⟩

def sub (a b : BitVec w) : Traced (BitVec w) := ⟨a - b, a.usubOverflow b⟩

theorem add_eq (h : a.toNat + b.toNat < 2 ^ w) : add a b = pure (a + b) := by
  have hwrap : a.uaddOverflow b = false := by
    rw [BitVec.uaddOverflow, decide_eq_false_iff_not]
    exact Nat.not_le.2 h
  exact congrArg (Traced.mk _) hwrap

theorem sub_eq (h : b ≤ a) : sub a b = pure (a - b) := by
  have hwrap : a.usubOverflow b = false := by
    rw [BitVec.usubOverflow, decide_eq_false_iff_not]
    exact Nat.not_lt.2 h
  exact congrArg (Traced.mk _) hwrap

/-! ## Masks -/

theorem toNat_and_mask {k : ℕ} (hk : k ≤ w) :
    (a &&& BitVec.ofNat w (2 ^ k - 1)).toNat = a.toNat % 2 ^ k := by
  have hle : (2 : ℕ) ^ k ≤ 2 ^ w := Nat.pow_le_pow_right two_pos hk
  have hpos : 0 < (2 : ℕ) ^ k := Nat.two_pow_pos k
  rw [BitVec.toNat_and, BitVec.toNat_ofNat, Nat.mod_eq_of_lt (by omega),
    Nat.and_two_pow_sub_one_eq_mod]

theorem toNat_and_not_mask (k : ℕ) :
    (a &&& ~~~BitVec.ofNat w (2 ^ k - 1)).toNat = a.toNat / 2 ^ k * 2 ^ k := by
  apply Nat.eq_of_testBit_eq
  intro i
  rw [Nat.testBit_mul_two_pow, Nat.testBit_div_two_pow, BitVec.testBit_toNat, BitVec.testBit_toNat,
    BitVec.getLsbD_and, BitVec.getLsbD_not, BitVec.getLsbD_ofNat, Nat.testBit_two_pow_sub_one]
  by_cases hw : i < w
  · by_cases hk : k ≤ i
    · simp [hw, hk, Nat.not_lt.2 hk]
    · simp [hw, hk, Nat.not_le.1 hk]
  · have hge : w ≤ i - k + k := by omega
    simp [hw, BitVec.getLsbD_of_ge _ _ hge]

/-! ## Words and their parts -/

theorem join_two (v : BitVec 16) :
    ((v >>> 8).setWidth 8).setWidth 16 <<< 8 ||| (v.setWidth 8).setWidth 16 = v := by
  apply BitVec.eq_of_getLsbD_eq
  intro i hi
  simp only [BitVec.getLsbD_or, BitVec.getLsbD_shiftLeft, BitVec.getLsbD_setWidth,
    BitVec.getLsbD_ushiftRight]
  grind

theorem join_four (v : BitVec 32) :
    ((v >>> 24).setWidth 8).setWidth 32 <<< 24 ||| ((v >>> 16).setWidth 8).setWidth 32 <<< 16 |||
      ((v >>> 8).setWidth 8).setWidth 32 <<< 8 ||| (v.setWidth 8).setWidth 32 = v := by
  apply BitVec.eq_of_getLsbD_eq
  intro i hi
  simp only [BitVec.getLsbD_or, BitVec.getLsbD_shiftLeft, BitVec.getLsbD_setWidth,
    BitVec.getLsbD_ushiftRight]
  grind

theorem join_halves (v : BitVec 64) :
    ((v >>> 32).setWidth 32).setWidth 64 <<< 32 ||| (v.setWidth 32).setWidth 64 = v := by
  apply BitVec.eq_of_getLsbD_eq
  intro i hi
  simp only [BitVec.getLsbD_or, BitVec.getLsbD_shiftLeft, BitVec.getLsbD_setWidth,
    BitVec.getLsbD_ushiftRight]
  grind

theorem split_two (a b : BitVec 8) :
    ((a.setWidth 16 <<< 8 ||| b.setWidth 16) >>> 8).setWidth 8 = a ∧
      (a.setWidth 16 <<< 8 ||| b.setWidth 16).setWidth 8 = b := by
  constructor <;> apply BitVec.eq_of_getLsbD_eq <;> intro i hi <;>
    simp only [BitVec.getLsbD_or, BitVec.getLsbD_shiftLeft, BitVec.getLsbD_setWidth,
      BitVec.getLsbD_ushiftRight] <;> grind

theorem split_halves (a b : BitVec 32) :
    ((a.setWidth 64 <<< 32 ||| b.setWidth 64) >>> 32).setWidth 32 = a ∧
      (a.setWidth 64 <<< 32 ||| b.setWidth 64).setWidth 32 = b := by
  constructor <;> apply BitVec.eq_of_getLsbD_eq <;> intro i hi <;>
    simp only [BitVec.getLsbD_or, BitVec.getLsbD_shiftLeft, BitVec.getLsbD_setWidth,
      BitVec.getLsbD_ushiftRight] <;> grind

theorem split_four (a b c d : BitVec 8) :
    let v := a.setWidth 32 <<< 24 ||| b.setWidth 32 <<< 16 ||| c.setWidth 32 <<< 8 ||| d.setWidth 32
    (v >>> 24).setWidth 8 = a ∧ (v >>> 16).setWidth 8 = b ∧ (v >>> 8).setWidth 8 = c ∧
      v.setWidth 8 = d := by
  refine ⟨?_, ?_, ?_, ?_⟩ <;> apply BitVec.eq_of_getLsbD_eq <;> intro i hi <;>
    simp only [BitVec.getLsbD_or, BitVec.getLsbD_shiftLeft, BitVec.getLsbD_setWidth,
      BitVec.getLsbD_ushiftRight] <;> grind

end Word
