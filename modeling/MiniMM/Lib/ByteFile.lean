import Mathlib

/-!
# Byte files and fixed-size pages

A file is a total byte array: what lies past its end reads as zero, which is
how positioned reads behave once a short read is padded.  A page is a block of
`n` consecutive bytes, read and written at a byte offset.
-/

namespace ByteFile

/-- The content of a file, zero past its end. -/
abbrev Bytes := ℕ → UInt8

/-- A block of `n` bytes. -/
abbrev Block (n : ℕ) := Fin n → UInt8

variable {n : ℕ}

/-- Read the block at `offset`. -/
def readAt (n : ℕ) (b : Bytes) (offset : ℕ) : Block n :=
  fun i ↦ b (offset + i)

/-- Write the first `k` bytes of a block at `offset`. -/
def writePrefix (b : Bytes) (offset k : ℕ) (p : Block n) : Bytes :=
  fun j ↦ if h : offset ≤ j ∧ j < offset + k ∧ j - offset < n then
    p ⟨j - offset, h.2.2⟩ else b j

/-- Write a whole block at `offset`. -/
def writeAt (b : Bytes) (offset : ℕ) (p : Block n) : Bytes :=
  writePrefix b offset n p

/-- Cut a file at `size`; a later extension reads as zero. -/
def truncate (b : Bytes) (size : ℕ) : Bytes :=
  fun j ↦ if j < size then b j else 0

/-- The bytes of a block in the range of `len` bytes from `offset`. -/
def slice (p : Block n) (offset len : ℕ) : List UInt8 :=
  (List.range len).map fun i ↦ if h : offset + i < n then p ⟨offset + i, h⟩ else 0

/-- Replace the bytes of a block from `offset` on by `data`. -/
def overwrite (p : Block n) (offset : ℕ) (data : List UInt8) : Block n :=
  fun i ↦ if offset ≤ i ∧ (i : ℕ) < offset + data.length then
    data.getD (i - offset) 0 else p i

@[simp] theorem readAt_writeAt_same (b : Bytes) (offset : ℕ) (p : Block n) :
    readAt n (writeAt b offset p) offset = p := by
  funext i
  simp [readAt, writeAt, writePrefix]

/-- Two blocks of `n` bytes at these offsets do not share a byte. -/
def Apart (n offset other : ℕ) : Prop :=
  offset + n ≤ other ∨ other + n ≤ offset

theorem apart_mul_of_ne {i j : ℕ} (h : i ≠ j) : Apart n (i * n) (j * n) := by
  rcases Nat.lt_or_gt_of_ne h with hij | hji
  · left
    calc i * n + n = (i + 1) * n := by ring
      _ ≤ j * n := Nat.mul_le_mul_right n hij
  · right
    calc j * n + n = (j + 1) * n := by ring
      _ ≤ i * n := Nat.mul_le_mul_right n hji

theorem readAt_writePrefix_of_apart (b : Bytes) {offset other : ℕ} (k : ℕ)
    (p : Block n) (h : Apart n offset other) :
    readAt n (writePrefix b offset k p) other = readAt n b other := by
  funext i
  have hi := i.2
  simp only [readAt, writePrefix]
  rw [dif_neg]
  rintro ⟨hle, -, hlt⟩
  rcases h with h | h <;> omega

theorem readAt_writeAt_of_apart (b : Bytes) {offset other : ℕ} (p : Block n)
    (h : Apart n offset other) :
    readAt n (writeAt b offset p) other = readAt n b other :=
  readAt_writePrefix_of_apart b n p h

@[simp] theorem slice_length (p : Block n) (offset len : ℕ) :
    (slice p offset len).length = len := by
  simp [slice]

@[simp] theorem overwrite_nil (p : Block n) (offset : ℕ) : overwrite p offset [] = p := by
  funext i
  simp only [overwrite, List.length_nil]
  rw [if_neg (by omega)]

end ByteFile
