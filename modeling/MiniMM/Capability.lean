import MiniMM.Protocol

/-!
# Capabilities as text

`client.c`: a capability of 16 bytes is written as 32 hexadecimal digits.  Both
directions work on one memory, so that the text and the capability may overlap;
no pointer is `none`.
-/

namespace MiniMM

namespace Capability

open Protocol

/-- The memory of the process: the byte at each address. -/
abbrev Memory := ℕ → Octet

/-- `MINIMM_PROTOCOL_CAPABILITY_SIZE`. -/
def capabilitySize : ℕ := 16

/-- `MINIMM_CAPABILITY_HEX_LENGTH`. -/
def hexLength : ℕ := capabilitySize * 2

/-- `MINIMM_CAPABILITY_HEX_BUFFER_SIZE`. -/
def hexBufferSize : ℕ := hexLength + 1

/-- The code of a character. -/
def code (c : Char) : ℕ := c.toNat

/-- The array `digits` of `minimm_capability_format`. -/
def digits : List Octet := "0123456789abcdef".toList.map fun c ↦ BitVec.ofNat 8 (code c)

/-- The first rounds of the loop of `minimm_capability_format`. -/
def formatRounds (input : Buffer) (output : ℕ) (memory : Memory) : ℕ → Memory
  | 0 => memory
  | index + 1 =>
    let memory := formatRounds input output memory index
    let memory := Function.update memory (output + index * 2)
      (digits.getD (input index >>> 4).toNat 0)
    Function.update memory (output + (index * 2 + 1)) (digits.getD (input index &&& 15).toNat 0)

/-- `minimm_capability_format`. -/
def capabilityFormat (memory : Memory) (capability output : Option ℕ) : Status × Memory :=
  match capability, output with
  | some capability, some output =>
    let input : Buffer := fun index ↦ memory (capability + index)
    let memory := formatRounds input output memory capabilitySize
    (.ok, Function.update memory (output + hexLength) 0)
  | _, _ => (.invalidArgument, memory)

/-- `minimm_capability_hex_value`. -/
def hexValue (character : Octet) : ℤ :=
  if code '0' ≤ character.toNat ∧ character.toNat ≤ code '9' then character.toNat - code '0'
  else if code 'a' ≤ character.toNat ∧ character.toNat ≤ code 'f' then
    character.toNat - code 'a' + 10
  else if code 'A' ≤ character.toNat ∧ character.toNat ≤ code 'F' then
    character.toNat - code 'A' + 10
  else -1

/-- `strnlen`. -/
def strnlen (memory : Memory) (text : ℕ) : ℕ → ℕ
  | 0 => 0
  | limit + 1 => if memory text = 0 then 0 else strnlen memory (text + 1) limit + 1

/-- `memset(out_capability, 0, sizeof(*out_capability))`. -/
def clear (out : ℕ) (memory : Memory) : Memory :=
  fun i ↦ if out ≤ i ∧ i < out + capabilitySize then 0 else memory i

/-- The loop of `minimm_capability_parse`, with `rounds` to go. -/
def parseLoop (input : Buffer) (out : ℕ) : ℕ → ℕ → Memory → Status × Memory
  | 0, _, memory => (.ok, memory)
  | rounds + 1, index, memory =>
    let high := hexValue (input (index * 2))
    let low := hexValue (input (index * 2 + 1))
    if high < 0 ∨ low < 0 then (.invalidArgument, clear out memory)
    else parseLoop input out rounds (index + 1)
      (Function.update memory (out + index) (BitVec.ofNat 8 (high.toNat <<< 4 ||| low.toNat)))

/-- `minimm_capability_parse`. -/
def capabilityParse (memory : Memory) (text out : Option ℕ) : Status × Memory :=
  match out with
  | none => (.invalidArgument, memory)
  | some out =>
    match text with
    | none => (.invalidArgument, clear out memory)
    | some text =>
      if strnlen memory text hexBufferSize ≠ hexLength then (.invalidArgument, clear out memory)
      else
        let input : Buffer := fun index ↦ memory (text + index)
        parseLoop input out capabilitySize 0 (clear out memory)

/-! ## Digits -/

/-- A hexadecimal digit of either case. -/
def IsHexDigit (c : Octet) : Prop :=
  (code '0' ≤ c.toNat ∧ c.toNat ≤ code '9') ∨ (code 'a' ≤ c.toNat ∧ c.toNat ≤ code 'f') ∨
    (code 'A' ≤ c.toNat ∧ c.toNat ≤ code 'F')

/-- The lower-case form of a character. -/
def lowerCase (c : Octet) : Octet :=
  if code 'A' ≤ c.toNat ∧ c.toNat ≤ code 'Z' then c + 32 else c

instance (c : Octet) : Decidable (IsHexDigit c) := by
  unfold IsHexDigit
  infer_instance

theorem hexValue_neg_iff (c : Octet) : hexValue c < 0 ↔ ¬IsHexDigit c := by
  unfold hexValue IsHexDigit
  split_ifs <;> omega

theorem hexValue_lt (c : Octet) : (hexValue c).toNat < 16 := by
  simp only [hexValue, code, Char.reduceToNat]
  split_ifs <;> omega

theorem ne_zero_of_isHexDigit {c : Octet} (h : IsHexDigit c) : c ≠ 0 := by
  rintro rfl
  revert h
  decide

theorem isHexDigit_digits : ∀ k < 16, IsHexDigit (digits.getD k 0) := by
  decide

theorem hexValue_digits : ∀ k < 16, (hexValue (digits.getD k 0)).toNat = k := by
  decide

theorem toNat_digits : ∀ k < 16,
    (digits.getD k 0).toNat = if k < 10 then 48 + k else 87 + k := by
  decide

theorem toNat_lowerCase (c : Octet) : (lowerCase c).toNat =
    if 65 ≤ c.toNat ∧ c.toNat ≤ 90 then c.toNat + 32 else c.toNat := by
  unfold lowerCase
  by_cases hupper : 65 ≤ c.toNat ∧ c.toNat ≤ 90
  · rw [if_pos hupper]
    refine (congrArg BitVec.toNat (if_pos hupper)).trans ?_
    rw [BitVec.toNat_add_of_lt]
    · rfl
    · change c.toNat + 32 < 256
      omega
  · rw [if_neg hupper]
    exact congrArg BitVec.toNat (if_neg hupper)

theorem hexValue_of_isHexDigit {c : Octet} (h : IsHexDigit c) :
    48 ≤ c.toNat ∧ c.toNat ≤ 57 ∧ (hexValue c).toNat = c.toNat - 48 ∨
      97 ≤ c.toNat ∧ c.toNat ≤ 102 ∧ (hexValue c).toNat = c.toNat - 87 ∨
      65 ≤ c.toNat ∧ c.toNat ≤ 70 ∧ (hexValue c).toNat = c.toNat - 55 := by
  have h0 : code '0' = 48 := rfl
  have h9 : code '9' = 57 := rfl
  have ha : code 'a' = 97 := rfl
  have hf : code 'f' = 102 := rfl
  have hA : code 'A' = 65 := rfl
  have hF : code 'F' = 70 := rfl
  unfold IsHexDigit at h
  unfold hexValue
  split_ifs <;> omega

theorem digits_hexValue {c : Octet} (h : IsHexDigit c) :
    digits.getD (hexValue c).toNat 0 = lowerCase c := by
  apply BitVec.eq_of_toNat_eq
  rw [toNat_digits _ (hexValue_lt c), toNat_lowerCase]
  have hcases := hexValue_of_isHexDigit h
  split_ifs <;> omega

theorem toNat_high (b : Octet) : (b >>> 4).toNat = b.toNat / 16 := by
  rw [BitVec.toNat_ushiftRight, Nat.shiftRight_eq_div_pow]

theorem toNat_low (b : Octet) : (b &&& 15).toNat = b.toNat % 16 := by
  rw [BitVec.toNat_and]
  exact Nat.and_two_pow_sub_one_eq_mod b.toNat 4

theorem high_lt (b : Octet) : (b >>> 4).toNat < 16 := by
  have := b.isLt
  rw [toNat_high]
  omega

theorem low_lt (b : Octet) : (b &&& 15).toNat < 16 := by
  rw [toNat_low]
  exact Nat.mod_lt _ (by decide)

theorem or_eq_add {low : ℕ} (high : ℕ) (h : low < 16) : high <<< 4 ||| low = high * 16 + low := by
  rw [← Nat.shiftLeft_add_eq_or_of_lt h, Nat.shiftLeft_eq]

theorem join_digits (b : Octet) :
    BitVec.ofNat 8 ((b >>> 4).toNat <<< 4 ||| (b &&& 15).toNat) = b := by
  apply BitVec.eq_of_toNat_eq
  have := b.isLt
  rw [or_eq_add _ (low_lt b), BitVec.toNat_ofNat, toNat_high, toNat_low]
  omega

theorem split_digits {high low : ℕ} (hhigh : high < 16) (hlow : low < 16) :
    ((BitVec.ofNat 8 (high <<< 4 ||| low) : Octet) >>> 4).toNat = high ∧
      ((BitVec.ofNat 8 (high <<< 4 ||| low) : Octet) &&& 15).toNat = low := by
  rw [or_eq_add _ hlow, toNat_high, toNat_low, BitVec.toNat_ofNat]
  omega

/-! ## The loops -/

variable {memory : Memory} {input : Buffer} {text out output : ℕ}

/-- The character at position `k` of the text of the bytes `input`. -/
def textOf (input : Buffer) (k : ℕ) : Octet :=
  if k % 2 = 0 then digits.getD (input (k / 2) >>> 4).toNat 0
  else digits.getD (input (k / 2) &&& 15).toNat 0

theorem textOf_congr {input input' : Buffer} {k : ℕ} (h : input (k / 2) = input' (k / 2)) :
    textOf input k = textOf input' k := by
  rw [textOf, textOf, h]

theorem isHexDigit_textOf (input : Buffer) (k : ℕ) : IsHexDigit (textOf input k) := by
  unfold textOf
  split_ifs
  · exact isHexDigit_digits _ (high_lt _)
  · exact isHexDigit_digits _ (low_lt _)

theorem formatRounds_apply (input : Buffer) (output : ℕ) (memory : Memory) (n i : ℕ) :
    formatRounds input output memory n i =
      if output ≤ i ∧ i < output + n * 2 then textOf input (i - output) else memory i := by
  induction n with
  | zero =>
    rw [if_neg (by omega)]
    rfl
  | succ n ih =>
    rw [formatRounds]
    by_cases hlow : i = output + (n * 2 + 1)
    · have hpos : i - output = n * 2 + 1 := by omega
      rw [hlow, Function.update_self, if_pos (by omega), ← hlow, hpos, textOf, if_neg (by omega),
        show (n * 2 + 1) / 2 = n by omega]
    rw [Function.update_of_ne hlow]
    by_cases hhigh : i = output + n * 2
    · have hpos : i - output = n * 2 := by omega
      rw [hhigh, Function.update_self, if_pos (by omega), ← hhigh, hpos, textOf,
        if_pos (by omega), show n * 2 / 2 = n by omega]
    rw [Function.update_of_ne hhigh, ih]
    exact if_congr (by omega) rfl rfl

theorem strnlen_eq_iff (memory : Memory) (text n : ℕ) : strnlen memory text (n + 1) = n ↔
    (∀ k < n, memory (text + k) ≠ 0) ∧ memory (text + n) = 0 := by
  induction n generalizing text with
  | zero => simp [strnlen]
  | succ n ih =>
    rw [strnlen]
    split_ifs with hzero
    · refine ⟨nofun, fun h ↦ ?_⟩
      exact (h.1 0 (by omega) hzero).elim
    · rw [Nat.succ_inj, ih]
      constructor
      · rintro ⟨hne, hend⟩
        refine ⟨fun k hk ↦ ?_, by rw [← hend]; ring_nf⟩
        cases k with
        | zero => exact hzero
        | succ k =>
          rw [show text + (k + 1) = text + 1 + k by ring]
          exact hne k (by omega)
      · rintro ⟨hne, hend⟩
        refine ⟨fun k hk ↦ ?_, by rw [← hend]; ring_nf⟩
        rw [show text + 1 + k = text + (k + 1) by ring]
        exact hne (k + 1) (by omega)

/-- The byte that two characters of the text `input` stand for. -/
def byteOf (input : Buffer) (index : ℕ) : Octet :=
  BitVec.ofNat 8 ((hexValue (input (index * 2))).toNat <<< 4 |||
    (hexValue (input (index * 2 + 1))).toNat)

theorem parseLoop_ok {rounds index : ℕ}
    (h : ∀ k, index * 2 ≤ k → k < (index + rounds) * 2 → IsHexDigit (input k)) :
    parseLoop input out rounds index memory = (.ok, fun i ↦
      if out + index ≤ i ∧ i < out + index + rounds then byteOf input (i - out) else memory i) := by
  induction rounds generalizing index memory with
  | zero =>
    refine Prod.ext rfl (funext fun i ↦ ?_)
    dsimp only
    rw [if_neg (by omega)]
    rfl
  | succ rounds ih =>
    have hhigh : ¬hexValue (input (index * 2)) < 0 := by
      rw [hexValue_neg_iff, not_not]
      exact h _ le_rfl (by omega)
    have hlow : ¬hexValue (input (index * 2 + 1)) < 0 := by
      rw [hexValue_neg_iff, not_not]
      exact h _ (by omega) (by omega)
    rw [parseLoop, if_neg (not_or.2 ⟨hhigh, hlow⟩), ih fun k hle hlt ↦ h k (by omega) (by omega)]
    refine Prod.ext rfl (funext fun i ↦ ?_)
    dsimp only
    by_cases hi : i = out + index
    · rw [if_neg (by omega), hi, Function.update_self, if_pos (by omega), byteOf,
        show out + index - out = index by omega]
    · rw [Function.update_of_ne hi]
      exact if_congr (by omega) rfl rfl

theorem clear_update {i : ℕ} (hle : out ≤ i) (hlt : i < out + capabilitySize) (b : Octet) :
    clear out (Function.update memory i b) = clear out memory := by
  funext j
  unfold clear
  split_ifs with hj
  · rfl
  · exact Function.update_of_ne (by rintro rfl; exact hj ⟨hle, hlt⟩) _ _

theorem parseLoop_bad {rounds index k : ℕ} (hrounds : index + rounds ≤ capabilitySize)
    (hle : index * 2 ≤ k) (hlt : k < (index + rounds) * 2) (hk : ¬IsHexDigit (input k)) :
    parseLoop input out rounds index memory = (.invalidArgument, clear out memory) := by
  induction rounds generalizing index memory with
  | zero => omega
  | succ rounds ih =>
    rw [parseLoop]
    by_cases hbad : hexValue (input (index * 2)) < 0 ∨ hexValue (input (index * 2 + 1)) < 0
    · rw [if_pos hbad]
    · rw [if_neg hbad, ih (by omega) ?_ (by omega), clear_update (by omega) (by omega)]
      -- the two characters of this round are digits, so the bad one comes later
      rw [hexValue_neg_iff, hexValue_neg_iff, not_or, not_not, not_not] at hbad
      by_contra hlt'
      obtain rfl | rfl : k = index * 2 ∨ k = index * 2 + 1 := by omega
      · exact hk hbad.1
      · exact hk hbad.2

/-! ## Round trips -/

/-- A string of 32 hexadecimal digits. -/
structure HexText (memory : Memory) (text : ℕ) : Prop where
  digits : ∀ k < hexLength, IsHexDigit (memory (text + k))
  terminated : memory (text + hexLength) = 0

theorem capabilityFormat_eq (memory : Memory) (capability output : ℕ) :
    capabilityFormat memory (some capability) (some output) = (.ok, fun i ↦
      if i = output + hexLength then 0
      else if output ≤ i ∧ i < output + hexLength then
        textOf (fun index ↦ memory (capability + index)) (i - output)
      else memory i) := by
  refine Prod.ext rfl (funext fun i ↦ ?_)
  simp only [capabilityFormat, Function.update_apply, formatRounds_apply]
  rfl

theorem capabilityParse_of_hexText (h : HexText memory text) (out : ℕ) :
    capabilityParse memory (some text) (some out) = (.ok, fun i ↦
      if out ≤ i ∧ i < out + capabilitySize then
        byteOf (fun index ↦ memory (text + index)) (i - out)
      else memory i) := by
  have hlength : strnlen memory text hexBufferSize = hexLength :=
    (strnlen_eq_iff memory text hexLength).2
      ⟨fun k hk ↦ ne_zero_of_isHexDigit (h.digits k hk), h.terminated⟩
  simp only [capabilityParse]
  rw [if_neg (not_not.2 hlength), parseLoop_ok fun k _ hk ↦ h.digits k (by rw [hexLength]; omega)]
  refine Prod.ext rfl (funext fun i ↦ ?_)
  dsimp only [Nat.add_zero]
  split_ifs with hi
  · rfl
  · exact if_neg hi

theorem capabilityParse_of_not (h : ¬HexText memory text) (out : ℕ) :
    capabilityParse memory (some text) (some out) = (.invalidArgument, clear out memory) := by
  simp only [capabilityParse]
  by_cases hlength : strnlen memory text hexBufferSize = hexLength
  · rw [if_neg (not_not.2 hlength)]
    obtain ⟨-, hend⟩ := (strnlen_eq_iff memory text hexLength).1 hlength
    obtain ⟨k, hk, hdigit⟩ : ∃ k < hexLength, ¬IsHexDigit (memory (text + k)) := by
      by_contra hall
      push Not at hall
      exact h ⟨hall, hend⟩
    have hloop : parseLoop (fun index ↦ memory (text + index)) out capabilitySize 0
        (clear out memory) = (.invalidArgument, clear out (clear out memory)) :=
      parseLoop_bad (Nat.zero_add _).le (Nat.zero_le k) (by rw [hexLength] at hk; omega) hdigit
    rw [hloop]
    refine Prod.ext rfl (funext fun i ↦ ?_)
    dsimp only [clear]
    split_ifs <;> rfl
  · rw [if_pos hlength]

theorem clear_apply {k : ℕ} (hk : k < capabilitySize) : clear out memory (out + k) = 0 :=
  if_pos ⟨Nat.le_add_right _ _, Nat.add_lt_add_left hk _⟩

theorem hexText_format (memory : Memory) (capability output : ℕ) :
    HexText (capabilityFormat memory (some capability) (some output)).2 output := by
  rw [capabilityFormat_eq]
  refine ⟨fun k hk ↦ ?_, if_pos rfl⟩
  dsimp only
  rw [if_neg (by omega), if_pos (by omega)]
  exact isHexDigit_textOf _ _

theorem byteOf_textOf (input : Buffer) (index : ℕ) : byteOf (textOf input) index = input index := by
  have hhigh : textOf input (index * 2) = digits.getD (input index >>> 4).toNat 0 := by
    rw [textOf, if_pos (by omega), Nat.mul_div_cancel _ two_pos]
  have hlow : textOf input (index * 2 + 1) = digits.getD (input index &&& 15).toNat 0 := by
    rw [textOf, if_neg (by omega), show (index * 2 + 1) / 2 = index by omega]
  rw [byteOf, hhigh, hlow, hexValue_digits _ (high_lt _), hexValue_digits _ (low_lt _), join_digits]

theorem textOf_byteOf (input : Buffer) {k : ℕ} (hk : IsHexDigit (input k)) :
    textOf (byteOf input) k = lowerCase (input k) := by
  have hsplit := split_digits (hexValue_lt (input (k / 2 * 2)))
    (hexValue_lt (input (k / 2 * 2 + 1)))
  unfold textOf
  split_ifs with heven
  · rw [byteOf, hsplit.1, show k / 2 * 2 = k by omega, digits_hexValue hk]
  · rw [byteOf, hsplit.2, show k / 2 * 2 + 1 = k by omega, digits_hexValue hk]

/-- Parsing gives back a formatted capability, and accepts the strings of 32 hexadecimal digits, of
which formatting gives back the lower-case form. Anything else leaves zeros. The text and the
capability may overlap. -/
theorem capability_roundTrip (memory : Memory) (text out : ℕ) :
    (∀ capability output, (capabilityFormat memory (some capability) (some output)).1 = .ok ∧
      (capabilityParse (capabilityFormat memory (some capability) (some output)).2 (some output)
        (some out)).1 = .ok ∧
      ∀ k < capabilitySize,
        (capabilityParse (capabilityFormat memory (some capability) (some output)).2 (some output)
          (some out)).2 (out + k) = memory (capability + k)) ∧
    ((capabilityParse memory (some text) (some out)).1 = .ok ↔ HexText memory text) ∧
    (HexText memory text → ∀ output, ∀ k < hexLength,
      (capabilityFormat (capabilityParse memory (some text) (some out)).2 (some out)
        (some output)).2 (output + k) = lowerCase (memory (text + k))) ∧
    (¬HexText memory text →
      (capabilityParse memory (some text) (some out)).1 = .invalidArgument ∧
      ∀ k < capabilitySize, (capabilityParse memory (some text) (some out)).2 (out + k) = 0) ∧
    ∀ i, i < out ∨ out + capabilitySize ≤ i →
      (capabilityParse memory (some text) (some out)).2 i = memory i := by
  refine ⟨fun capability output ↦ ⟨?_, ?_, fun k hk ↦ ?_⟩, ?_, fun h output k hk ↦ ?_, fun h ↦ ?_,
    fun i hi ↦ ?_⟩
  · rw [capabilityFormat_eq]
  · rw [capabilityParse_of_hexText (hexText_format memory capability output)]
  · rw [capabilityParse_of_hexText (hexText_format memory capability output)]
    dsimp only
    rw [if_pos (by omega), Nat.add_sub_cancel_left]
    rw [← byteOf_textOf (fun index ↦ memory (capability + index)) k]
    have hchar : ∀ j < hexLength, (capabilityFormat memory (some capability) (some output)).2
        (output + j) = textOf (fun index ↦ memory (capability + index)) j := by
      intro j hj
      rw [capabilityFormat_eq]
      dsimp only
      rw [if_neg (by omega), if_pos (by omega), Nat.add_sub_cancel_left]
    rw [byteOf, byteOf, hchar _ (by rw [hexLength]; omega), hchar _ (by rw [hexLength]; omega)]
  · by_cases h : HexText memory text
    · simp [capabilityParse_of_hexText h, h]
    · simp [capabilityParse_of_not h, h]
  · rw [capabilityFormat_eq, capabilityParse_of_hexText h]
    dsimp only
    have hbyte : k / 2 < capabilitySize := by
      rw [hexLength] at hk
      omega
    rw [if_neg (by omega), if_pos (by omega), Nat.add_sub_cancel_left,
      ← textOf_byteOf (fun index ↦ memory (text + index)) (h.digits k hk)]
    apply textOf_congr
    rw [if_pos (by omega), Nat.add_sub_cancel_left]
  · rw [capabilityParse_of_not h]
    exact ⟨rfl, fun k hk ↦ clear_apply hk⟩
  · by_cases h : HexText memory text
    · rw [capabilityParse_of_hexText h]
      exact if_neg (by omega)
    · rw [capabilityParse_of_not h]
      exact if_neg (by omega)

/-- A text in upper case that lies over the capability. -/
def overlapping : Memory := fun i ↦
  if i < hexLength then (if i % 2 = 0 then BitVec.ofNat 8 (code 'A') else BitVec.ofNat 8 (code '7'))
  else 0

theorem capability_roundTrip_overlapping : HexText overlapping 0 ∧
    (capabilityFormat (capabilityParse overlapping (some 0) (some 3)).2 (some 3) (some 0)).2 0 =
      BitVec.ofNat 8 (code 'a') := by
  have h : HexText overlapping 0 := ⟨by decide, by decide⟩
  exact ⟨h, (capability_roundTrip overlapping 0 3).2.2.1 h 0 0 (by decide)⟩

end Capability

end MiniMM
