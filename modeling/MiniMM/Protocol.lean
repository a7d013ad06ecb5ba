import MiniMM.Basic
import MiniMM.Lib.Word

/-!
# The header of a message

`protocol.c`: the fields of a header are packed into 32 bytes in network byte
order.  A buffer is what a pointer points to: the byte at each offset from it.
-/

namespace MiniMM

namespace Protocol

abbrev Octet := BitVec 8

abbrev Buffer := ℕ → Octet

/-- `minimm_protocol_put_u16` at `destination + offset`. -/
def putU16 (destination : Buffer) (offset : ℕ) (value : BitVec 16) : Buffer :=
  let destination := Function.update destination offset ((value >>> 8).setWidth 8)
  Function.update destination (offset + 1) (value.setWidth 8)

/-- `minimm_protocol_put_u32`. -/
def putU32 (destination : Buffer) (offset : ℕ) (value : BitVec 32) : Buffer :=
  let destination := Function.update destination offset ((value >>> 24).setWidth 8)
  let destination := Function.update destination (offset + 1) ((value >>> 16).setWidth 8)
  let destination := Function.update destination (offset + 2) ((value >>> 8).setWidth 8)
  Function.update destination (offset + 3) (value.setWidth 8)

/-- `minimm_protocol_put_u64`. -/
def putU64 (destination : Buffer) (offset : ℕ) (value : BitVec 64) : Buffer :=
  let destination := putU32 destination offset ((value >>> 32).setWidth 32)
  putU32 destination (offset + 4) (value.setWidth 32)

/-- `minimm_protocol_get_u16` at `source + offset`. -/
def getU16 (source : Buffer) (offset : ℕ) : BitVec 16 :=
  (source offset).setWidth 16 <<< 8 ||| (source (offset + 1)).setWidth 16

/-- `minimm_protocol_get_u32`. -/
def getU32 (source : Buffer) (offset : ℕ) : BitVec 32 :=
  (source offset).setWidth 32 <<< 24 ||| (source (offset + 1)).setWidth 32 <<< 16 |||
    (source (offset + 2)).setWidth 32 <<< 8 ||| (source (offset + 3)).setWidth 32

/-- `minimm_protocol_get_u64`. -/
def getU64 (source : Buffer) (offset : ℕ) : BitVec 64 :=
  (getU32 source offset).setWidth 64 <<< 32 ||| (getU32 source (offset + 4)).setWidth 64

/-- `minimm_protocol_header_t`. -/
structure Header where
  magic : BitVec 32
  major : Octet
  minor : Octet
  headerSize : BitVec 16
  opcode : BitVec 16
  flags : BitVec 16
  wireStatus : BitVec 32
  requestId : BitVec 64
  payloadLength : BitVec 32
  reserved : BitVec 32
  deriving DecidableEq, Repr

/-- `MINIMM_PROTOCOL_MAGIC`. -/
def protocolMagic : BitVec 32 := 0x4d494d4d

/-- `MINIMM_PROTOCOL_HEADER_SIZE`. -/
def protocolHeaderSize : BitVec 16 := 32

/-- `MINIMM_PROTOCOL_FLAG_RESPONSE`. -/
def flagResponse : BitVec 16 := 1

/-- `MINIMM_PROTOCOL_HARD_MAX_PAYLOAD_SIZE`. -/
def hardMaxPayloadSize : BitVec 32 := 1048576 + 24

/-- `minimm_protocol_header_is_valid`. -/
def headerIsValid (header : Header) : Bool :=
  if header.magic ≠ protocolMagic ∨ header.headerSize ≠ protocolHeaderSize ∨
      header.flags &&& ~~~flagResponse ≠ 0 ∨ header.payloadLength > hardMaxPayloadSize ∨
      header.requestId = 0 ∨ header.reserved ≠ 0 then false
  else decide (header.flags &&& flagResponse ≠ 0) || decide (header.wireStatus = 0)

/-- The bytes that `minimm_protocol_encode_header` writes. -/
def writeHeader (header : Header) (output : Buffer) : Buffer :=
  let output := putU32 output 0 header.magic
  let output := Function.update output 4 header.major
  let output := Function.update output 5 header.minor
  let output := putU16 output 6 header.headerSize
  let output := putU16 output 8 header.opcode
  let output := putU16 output 10 header.flags
  let output := putU32 output 12 header.wireStatus
  let output := putU64 output 16 header.requestId
  let output := putU32 output 24 header.payloadLength
  putU32 output 28 header.reserved

/-- `minimm_protocol_encode_header`: was the header accepted, and the output. -/
def encodeHeader (header : Header) (output : Buffer) : Bool × Buffer :=
  if headerIsValid header = false then (false, output) else (true, writeHeader header output)

/-- The fields that `minimm_protocol_decode_header` reads. -/
def readHeader (input : Buffer) : Header where
  magic := getU32 input 0
  major := input 4
  minor := input 5
  headerSize := getU16 input 6
  opcode := getU16 input 8
  flags := getU16 input 10
  wireStatus := getU32 input 12
  requestId := getU64 input 16
  payloadLength := getU32 input 24
  reserved := getU32 input 28

/-- `minimm_protocol_decode_header`: were the bytes accepted, and the header. -/
def decodeHeader (input : Buffer) (outHeader : Header) : Bool × Header :=
  if headerIsValid (readHeader input) = false then (false, outHeader)
  else (true, readHeader input)

/-! ## Words in a buffer -/

variable {m m' : Buffer} {offset i : ℕ}

theorem putU16_of_lt (value : BitVec 16) (hi : i < offset) : putU16 m offset value i = m i := by
  have h : i ≠ offset ∧ i ≠ offset + 1 := by omega
  simp [putU16, h]

theorem putU32_of_lt (value : BitVec 32) (hi : i < offset) : putU32 m offset value i = m i := by
  have h : i ≠ offset ∧ i ≠ offset + 1 ∧ i ≠ offset + 2 ∧ i ≠ offset + 3 := by omega
  simp [putU32, h]

theorem putU64_of_lt (value : BitVec 64) (hi : i < offset) : putU64 m offset value i = m i := by
  rw [putU64, putU32_of_lt _ (by omega), putU32_of_lt _ hi]

theorem putU16_of_le (value : BitVec 16) (hi : offset + 2 ≤ i) :
    putU16 m offset value i = m i := by
  have h : i ≠ offset ∧ i ≠ offset + 1 := by omega
  simp [putU16, h]

theorem putU32_of_le (value : BitVec 32) (hi : offset + 4 ≤ i) :
    putU32 m offset value i = m i := by
  have h : i ≠ offset ∧ i ≠ offset + 1 ∧ i ≠ offset + 2 ∧ i ≠ offset + 3 := by omega
  simp [putU32, h]

theorem putU64_of_le (value : BitVec 64) (hi : offset + 8 ≤ i) :
    putU64 m offset value i = m i := by
  rw [putU64, putU32_of_le _ (by omega), putU32_of_le _ (by omega)]

theorem getU16_congr (h : ∀ i < offset + 2, m i = m' i) : getU16 m offset = getU16 m' offset := by
  rw [getU16, getU16, h offset (by omega), h (offset + 1) (by omega)]

theorem getU32_congr (h : ∀ i < offset + 4, m i = m' i) : getU32 m offset = getU32 m' offset := by
  rw [getU32, getU32, h offset (by omega), h (offset + 1) (by omega), h (offset + 2) (by omega),
    h (offset + 3) (by omega)]

theorem getU64_congr (h : ∀ i < offset + 8, m i = m' i) : getU64 m offset = getU64 m' offset := by
  rw [getU64, getU64, getU32_congr fun i hi ↦ h i (by omega),
    getU32_congr fun i hi ↦ h i (by omega)]

/-! A read below a write. -/

section Below

variable {position : ℕ}

theorem getU16_putU16_of_le (value : BitVec 16) (h : offset + 2 ≤ position) :
    getU16 (putU16 m position value) offset = getU16 m offset :=
  getU16_congr fun _ hi ↦ putU16_of_lt _ (hi.trans_le h)

theorem getU16_putU32_of_le (value : BitVec 32) (h : offset + 2 ≤ position) :
    getU16 (putU32 m position value) offset = getU16 m offset :=
  getU16_congr fun _ hi ↦ putU32_of_lt _ (hi.trans_le h)

theorem getU16_putU64_of_le (value : BitVec 64) (h : offset + 2 ≤ position) :
    getU16 (putU64 m position value) offset = getU16 m offset :=
  getU16_congr fun _ hi ↦ putU64_of_lt _ (hi.trans_le h)

theorem getU32_update_of_le (value : Octet) (h : offset + 4 ≤ position) :
    getU32 (Function.update m position value) offset = getU32 m offset :=
  getU32_congr fun _ hi ↦ Function.update_of_ne (hi.trans_le h).ne _ _

theorem getU32_putU16_of_le (value : BitVec 16) (h : offset + 4 ≤ position) :
    getU32 (putU16 m position value) offset = getU32 m offset :=
  getU32_congr fun _ hi ↦ putU16_of_lt _ (hi.trans_le h)

theorem getU32_putU32_of_le (value : BitVec 32) (h : offset + 4 ≤ position) :
    getU32 (putU32 m position value) offset = getU32 m offset :=
  getU32_congr fun _ hi ↦ putU32_of_lt _ (hi.trans_le h)

theorem getU32_putU64_of_le (value : BitVec 64) (h : offset + 4 ≤ position) :
    getU32 (putU64 m position value) offset = getU32 m offset :=
  getU32_congr fun _ hi ↦ putU64_of_lt _ (hi.trans_le h)

theorem getU64_putU32_of_le (value : BitVec 32) (h : offset + 8 ≤ position) :
    getU64 (putU32 m position value) offset = getU64 m offset :=
  getU64_congr fun _ hi ↦ putU32_of_lt _ (hi.trans_le h)

end Below

/-! What is written is read back. -/

theorem getU16_putU16 (value : BitVec 16) : getU16 (putU16 m offset value) offset = value := by
  have hhigh : putU16 m offset value offset = (value >>> 8).setWidth 8 := by simp [putU16]
  have hlow : putU16 m offset value (offset + 1) = value.setWidth 8 := by simp [putU16]
  rw [getU16, hhigh, hlow, Word.join_two]

theorem getU32_putU32 (value : BitVec 32) : getU32 (putU32 m offset value) offset = value := by
  have h0 : putU32 m offset value offset = (value >>> 24).setWidth 8 := by simp [putU32]
  have h1 : putU32 m offset value (offset + 1) = (value >>> 16).setWidth 8 := by simp [putU32]
  have h2 : putU32 m offset value (offset + 2) = (value >>> 8).setWidth 8 := by simp [putU32]
  have h3 : putU32 m offset value (offset + 3) = value.setWidth 8 := by simp [putU32]
  rw [getU32, h0, h1, h2, h3, Word.join_four]

theorem getU64_putU64 (value : BitVec 64) : getU64 (putU64 m offset value) offset = value := by
  have hhigh : getU32 (putU64 m offset value) offset = (value >>> 32).setWidth 32 := by
    rw [putU64, getU32_congr fun i hi ↦ putU32_of_lt _ hi, getU32_putU32]
  rw [getU64, hhigh, putU64, getU32_putU32, Word.join_halves]

/-! What is read is written back. -/

theorem putU16_getU16 (hle : offset ≤ i) (hlt : i < offset + 2) :
    putU16 m offset (getU16 m' offset) i = m' i := by
  have hhigh := (Word.split_two (m' offset) (m' (offset + 1))).1
  obtain rfl | rfl : i = offset ∨ i = offset + 1 := by omega
  · simpa [putU16, getU16] using hhigh
  · simp [putU16, getU16]

theorem putU32_getU32 (hle : offset ≤ i) (hlt : i < offset + 4) :
    putU32 m offset (getU32 m' offset) i = m' i := by
  obtain ⟨h0, h1, h2, -⟩ :=
    Word.split_four (m' offset) (m' (offset + 1)) (m' (offset + 2)) (m' (offset + 3))
  obtain rfl | rfl | rfl | rfl :
      i = offset ∨ i = offset + 1 ∨ i = offset + 2 ∨ i = offset + 3 := by omega
  · simpa [putU32, getU32] using h0
  · simpa [putU32, getU32] using h1
  · simpa [putU32, getU32] using h2
  · simp [putU32, getU32]

theorem putU64_getU64 (hle : offset ≤ i) (hlt : i < offset + 8) :
    putU64 m offset (getU64 m' offset) i = m' i := by
  obtain ⟨hhigh, hlow⟩ := Word.split_halves (getU32 m' offset) (getU32 m' (offset + 4))
  rw [putU64, getU64, hhigh, hlow]
  by_cases hi : i < offset + 4
  · rw [putU32_of_lt _ hi, putU32_getU32 hle hi]
  · exact putU32_getU32 (by omega) (by omega)

/-! ## Headers -/

variable {header : Header}

/-- The headers of the protocol. -/
structure Header.WellFormed (header : Header) : Prop where
  magic : header.magic = protocolMagic
  headerSize : header.headerSize = 32
  flags : header.flags = 0 ∨ header.flags = flagResponse
  requestId : header.requestId ≠ 0
  reserved : header.reserved = 0
  payload : header.payloadLength ≤ hardMaxPayloadSize
  request : header.flags = 0 → header.wireStatus = 0

theorem flags_iff (flags : BitVec 16) :
    flags &&& ~~~flagResponse = 0 ↔ flags = 0 ∨ flags = flagResponse := by
  constructor
  · intro h
    have hlow : flags = flags &&& flagResponse := by
      calc flags = (flags &&& ~~~flagResponse) ||| (flags &&& flagResponse) := by
            apply BitVec.eq_of_getLsbD_eq
            intro k hk
            simp only [BitVec.getLsbD_or, BitVec.getLsbD_and, BitVec.getLsbD_not]
            grind
        _ = flags &&& flagResponse := by
            rw [h]
            exact BitVec.zero_or
    rw [hlow, flagResponse, show (1 : BitVec 16) = 1#16 from rfl,
      BitVec.and_one_eq_setWidth_ofBool_getLsbD]
    cases flags.getLsbD 0 with
    | false => exact .inl rfl
    | true => exact .inr rfl
  · rintro (rfl | rfl) <;> decide

theorem headerIsValid_iff : headerIsValid header = true ↔ header.WellFormed := by
  have hresponse : (flagResponse &&& flagResponse ≠ 0) ∧
    ¬((0 : BitVec 16) &&& flagResponse ≠ 0) := by
    decide
  unfold headerIsValid
  split_ifs with hbad
  · refine ⟨nofun, fun h ↦ ?_⟩
    rcases hbad with hbad | hbad | hbad | hbad | hbad | hbad
    · exact (hbad h.magic).elim
    · exact (hbad h.headerSize).elim
    · exact (hbad ((flags_iff _).2 h.flags)).elim
    · exact absurd h.payload (BitVec.not_le.2 hbad)
    · exact (h.requestId hbad).elim
    · exact (hbad h.reserved).elim
  · simp only [not_or, not_not, gt_iff_lt, BitVec.not_lt] at hbad
    obtain ⟨hmagic, hsize, hflags, hpayload, hid, hreserved⟩ := hbad
    rw [flags_iff] at hflags
    rw [Bool.or_eq_true, decide_eq_true_iff, decide_eq_true_iff]
    constructor
    · intro h
      refine ⟨hmagic, hsize, hflags, hid, hreserved, hpayload, fun hzero ↦ h.resolve_left ?_⟩
      rw [hzero]
      exact hresponse.2
    · intro h
      rcases hflags with hzero | hone
      · exact .inr (h.request hzero)
      · rw [hone]
        exact .inl hresponse.1

theorem readHeader_writeHeader (header : Header) (output : Buffer) :
    readHeader (writeHeader header output) = header := by
  -- A field lies below all that is written after it.
  simp (disch := omega) [readHeader, writeHeader, getU32_putU32_of_le, getU32_putU16_of_le,
    getU32_putU64_of_le, getU32_update_of_le, getU16_putU16_of_le, getU16_putU32_of_le,
    getU16_putU64_of_le, getU64_putU32_of_le, putU16_of_lt, putU32_of_lt, putU64_of_lt,
    getU16_putU16, getU32_putU32, getU64_putU64]

theorem writeHeader_readHeader (input output : Buffer) (hi : i < 32) :
    writeHeader (readHeader input) output i = input i := by
  unfold writeHeader readHeader
  dsimp only
  by_cases h28 : 28 ≤ i
  · exact putU32_getU32 h28 (by omega)
  rw [putU32_of_lt _ (by omega)]
  by_cases h24 : 24 ≤ i
  · exact putU32_getU32 h24 (by omega)
  rw [putU32_of_lt _ (by omega)]
  by_cases h16 : 16 ≤ i
  · exact putU64_getU64 h16 (by omega)
  rw [putU64_of_lt _ (by omega)]
  by_cases h12 : 12 ≤ i
  · exact putU32_getU32 h12 (by omega)
  rw [putU32_of_lt _ (by omega)]
  by_cases h10 : 10 ≤ i
  · exact putU16_getU16 h10 (by omega)
  rw [putU16_of_lt _ (by omega)]
  by_cases h8 : 8 ≤ i
  · exact putU16_getU16 h8 (by omega)
  rw [putU16_of_lt _ (by omega)]
  by_cases h6 : 6 ≤ i
  · exact putU16_getU16 h6 (by omega)
  rw [putU16_of_lt _ (by omega)]
  by_cases h5 : i = 5
  · rw [h5, Function.update_self]
  rw [Function.update_of_ne h5]
  by_cases h4 : i = 4
  · rw [h4, Function.update_self]
  rw [Function.update_of_ne h4]
  exact putU32_getU32 (Nat.zero_le i) (by omega)

theorem writeHeader_of_le (header : Header) (output : Buffer) (hi : 32 ≤ i) :
    writeHeader header output i = output i := by
  simp (disch := omega) only [writeHeader, putU32_of_le, putU64_of_le, putU16_of_le,
    Function.update_of_ne]

theorem encodeHeader_of_wellFormed (h : header.WellFormed) (output : Buffer) :
    encodeHeader header output = (true, writeHeader header output) := by
  rw [encodeHeader, headerIsValid_iff.2 h, if_neg nofun]

theorem encodeHeader_of_not (h : ¬header.WellFormed) (output : Buffer) :
    encodeHeader header output = (false, output) :=
  if_pos (Bool.eq_false_iff.2 fun hvalid ↦ h (headerIsValid_iff.1 hvalid))

theorem decodeHeader_of_wellFormed {input : Buffer} (h : (readHeader input).WellFormed)
    (out : Header) : decodeHeader input out = (true, readHeader input) := by
  rw [decodeHeader, headerIsValid_iff.2 h, if_neg nofun]

theorem decodeHeader_of_not {input : Buffer} (h : ¬(readHeader input).WellFormed) (out : Header) :
    decodeHeader input out = (false, out) :=
  if_pos (Bool.eq_false_iff.2 fun hvalid ↦ h (headerIsValid_iff.1 hvalid))

/-- A header that is accepted comes back from its bytes, and 32 bytes that are accepted come back
from their header. Both sides accept the well-formed headers, and write nothing otherwise. -/
theorem header_roundTrip :
    (∀ header output, (encodeHeader header output).1 = true →
      ∀ out, decodeHeader (encodeHeader header output).2 out = (true, header)) ∧
    (∀ input out, (decodeHeader input out).1 = true →
      ∀ output, (encodeHeader (decodeHeader input out).2 output).1 = true ∧
        ∀ i < 32, (encodeHeader (decodeHeader input out).2 output).2 i = input i) ∧
    (∀ header output, (encodeHeader header output).1 = true ↔ header.WellFormed) ∧
    (∀ input out, (decodeHeader input out).1 = true ↔ (readHeader input).WellFormed) ∧
    (∀ header output, (encodeHeader header output).1 = false →
      (encodeHeader header output).2 = output) ∧
    (∀ input out, (decodeHeader input out).1 = false → (decodeHeader input out).2 = out) ∧
    ∀ header output, ∀ i, 32 ≤ i → (encodeHeader header output).2 i = output i := by
  have hencode : ∀ header output, (encodeHeader header output).1 = true ↔ header.WellFormed := by
    intro header output
    by_cases h : header.WellFormed
    · simp [encodeHeader_of_wellFormed h, h]
    · simp [encodeHeader_of_not h, h]
  have hdecode : ∀ input out, (decodeHeader input out).1 = true ↔
      (readHeader input).WellFormed := by
    intro input out
    by_cases h : (readHeader input).WellFormed
    · simp [decodeHeader_of_wellFormed h, h]
    · simp [decodeHeader_of_not h, h]
  refine ⟨fun header output haccept out ↦ ?_, fun input out haccept output ↦ ?_, hencode, hdecode,
    fun header output hreject ↦ ?_, fun input out hreject ↦ ?_, fun header output i hi ↦ ?_⟩
  · have h := (hencode header output).1 haccept
    have hread := readHeader_writeHeader header output
    rw [encodeHeader_of_wellFormed h, decodeHeader_of_wellFormed (by rwa [hread]), hread]
  · have h := (hdecode input out).1 haccept
    rw [decodeHeader_of_wellFormed h, encodeHeader_of_wellFormed h]
    exact ⟨rfl, fun i hi ↦ writeHeader_readHeader input output hi⟩
  · have h : ¬header.WellFormed := fun h ↦ Bool.false_ne_true
      (hreject.symm.trans ((hencode _ _).2 h))
    rw [encodeHeader_of_not h]
  · have h : ¬(readHeader input).WellFormed := fun h ↦
      Bool.false_ne_true (hreject.symm.trans ((hdecode _ _).2 h))
    rw [decodeHeader_of_not h]
  · by_cases h : header.WellFormed
    · rw [encodeHeader_of_wellFormed h]
      exact writeHeader_of_le header output hi
    · rw [encodeHeader_of_not h]

/-- The header of a `PING`. -/
def pingHeader : Header :=
  ⟨protocolMagic, 1, 0, protocolHeaderSize, 2, 0, 0, 1, 8, 0⟩

theorem header_roundTrip_ping : (encodeHeader pingHeader fun _ ↦ 0).1 = true ∧
    decodeHeader (encodeHeader pingHeader fun _ ↦ 0).2 pingHeader = (true, pingHeader) := by
  have haccept : (encodeHeader pingHeader fun _ ↦ 0).1 = true := by decide
  exact ⟨haccept, header_roundTrip.1 pingHeader _ haccept pingHeader⟩

end Protocol

end MiniMM
