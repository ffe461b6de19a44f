import Cromwell.Std.Memory

/-!
# Fields of bits in byte registers

A value that is wider than a register, or narrower, is kept in a field: a list of
segments, the lowest one first, each of them some bits of one register. A register
is updated by masking bits off and others in. What a segment holds afterwards
follows from the masks alone, whatever else shares the register.
-/

namespace Cromwell.Std

/-- A 32-bit integer, as C promotes a byte to. -/
abbrev Long := BitVec 32

/-- A byte as an integer. -/
def widen (byte : Byte) : Long := byte.toBitVec.setWidth 32

/-- An integer cut to the byte a register holds. -/
def truncate (value : Long) : Byte := UInt8.ofBitVec (value.setWidth 8)

/-- The bits of a number from `low` on. -/
def bits (low width n : Nat) : Nat := n / 2 ^ low % 2 ^ width

section Bits

variable {low width : Nat}

theorem bits_lt (low width n : Nat) : bits low width n < 2 ^ width :=
  Nat.mod_lt _ (Nat.two_pow_pos width)

theorem testBit_bits (low width n i : Nat) :
    (bits low width n).testBit i = (decide (i < width) && n.testBit (i + low)) := by
  rw [bits, Nat.testBit_mod_two_pow, Nat.testBit_div_two_pow]

theorem bits_or {width' : Nat} (a b : BitVec width') :
    bits low width (a ||| b).toNat = bits low width a.toNat ||| bits low width b.toNat := by
  rw [BitVec.toNat_or, bits, Nat.or_div_two_pow, Nat.or_mod_two_pow]
  rfl

/-- A mask that covers the segment changes nothing in it. -/
theorem bits_and_covered {width' : Nat} {a mask : BitVec width'}
    (covers : bits low width mask.toNat = 2 ^ width - 1) :
    bits low width (a &&& mask).toNat = bits low width a.toNat := by
  rw [BitVec.toNat_and, bits, Nat.and_div_two_pow, Nat.and_mod_two_pow]
  change bits low width a.toNat &&& bits low width mask.toNat = _
  rw [covers, Nat.and_two_pow_sub_one_eq_mod]
  exact Nat.mod_eq_of_lt (bits_lt low width _)

/-- A mask beside the segment clears it. -/
theorem bits_and_beside {width' : Nat} {a mask : BitVec width'}
    (beside : bits low width mask.toNat = 0) : bits low width (a &&& mask).toNat = 0 := by
  rw [BitVec.toNat_and, bits, Nat.and_div_two_pow, Nat.and_mod_two_pow]
  change bits low width a.toNat &&& bits low width mask.toNat = _
  rw [beside, Nat.and_zero]

theorem bits_truncate (value : Long) (inside : low + width ≤ 8) :
    bits low width (truncate value).toNat = bits low width value.toNat := by
  have whole : (truncate value).toNat = value.toNat % 2 ^ 8 := by
    simp [truncate]
  rw [whole]
  apply Nat.eq_of_testBit_eq
  intro i
  simp only [testBit_bits, Nat.testBit_mod_two_pow]
  by_cases small : i < width
  · have short : i + low < 8 := by omega
    simp [small, short]
  · simp [small]

theorem toNat_widen (byte : Byte) : (widen byte).toNat = byte.toNat := by
  simp [widen]

/-- A shift to the right, of either kind, moves a segment of the word down. -/
theorem bits_sshiftRight (value : Long) {shift : Nat} (inside : low + width + shift ≤ 32) :
    bits low width (value.sshiftRight shift).toNat = bits (low + shift) width value.toNat := by
  apply Nat.eq_of_testBit_eq
  intro i
  simp only [testBit_bits, BitVec.testBit_toNat, BitVec.getLsbD_sshiftRight]
  by_cases small : i < width
  · have same : shift + (i + low) = i + (low + shift) := by omega
    have short : i + (low + shift) < 32 := by omega
    have shorter : ¬ 32 ≤ i + low := by omega
    rw [same, if_pos short]
    simp [small, shorter]
  · simp [small]

theorem bits_ushiftRight (value : Long) (shift : Nat) :
    bits low width (value >>> shift).toNat = bits (low + shift) width value.toNat := by
  rw [BitVec.toNat_ushiftRight, Nat.shiftRight_eq_div_pow, bits, bits, Nat.div_div_eq_div_mul,
    ← pow_add, Nat.add_comm shift low]

/-- A shift to the left moves a segment of the word up. -/
theorem bits_shiftLeft (value : Long) {shift : Nat} (above : shift ≤ low)
    (inside : low + width ≤ 32) :
    bits low width (value <<< shift).toNat = bits (low - shift) width value.toNat := by
  apply Nat.eq_of_testBit_eq
  intro i
  simp only [testBit_bits, BitVec.testBit_toNat, BitVec.getLsbD_shiftLeft]
  by_cases small : i < width
  · have short : i + low < 32 := by omega
    have beneath : ¬ i + low < shift := by omega
    have same : i + low - shift = i + (low - shift) := by omega
    simp [small, short, beneath, same]
  · simp [small]

/-- Two segments that adjoin are one. -/
theorem bits_append (low width upper n : Nat) :
    bits low width n + 2 ^ width * bits (low + width) upper n = bits low (width + upper) n := by
  rw [bits, bits, bits, pow_add 2 low, ← Nat.div_div_eq_div_mul, pow_add 2 width, Nat.mod_mul]

end Bits

/-! ## Fields -/

/-- Some bits of a register. -/
structure Segment where
  register : Nat
  low : Nat
  width : Nat
  deriving Repr, DecidableEq

/-- What a segment holds. -/
def Segment.read (segment : Segment) (regs : Memory) : Nat :=
  bits segment.low segment.width (regs segment.register).toNat

/-- `regs[register] = (regs[register] & keep) | put`. -/
def merge (regs : Memory) (register : Nat) (keep put : Long) : Memory :=
  regs.set register (truncate (widen (regs register) &&& keep ||| put))

section Read

variable (regs : Memory) {register other : Nat} (low width : Nat)

theorem read_set_same (value : Byte) :
    Segment.read ⟨register, low, width⟩ (regs.set register value) = bits low width value.toNat := by
  simp [Segment.read]

theorem read_set_other (value : Byte) (different : register ≠ other) :
    Segment.read ⟨register, low, width⟩ (regs.set other value) =
      Segment.read ⟨register, low, width⟩ regs := by
  simp [Segment.read, Memory.set_other _ different]

/-- A merge leaves the segment alone, clears it or puts other bits there, by what the
masks cover. -/
theorem read_merge_same (keep put : Long) (inside : low + width ≤ 8) :
    Segment.read ⟨register, low, width⟩ (merge regs register keep put) =
      bits low width (widen (regs register) &&& keep).toNat ||| bits low width put.toNat := by
  rw [merge, read_set_same, bits_truncate _ inside, bits_or]

theorem read_merge_other (keep put : Long) (different : register ≠ other) :
    Segment.read ⟨register, low, width⟩ (merge regs other keep put) =
      Segment.read ⟨register, low, width⟩ regs :=
  read_set_other regs low width _ different

theorem bits_widen (register : Nat) :
    bits low width (widen (regs register)).toNat = Segment.read ⟨register, low, width⟩ regs := by
  rw [toNat_widen]
  rfl

end Read

/-- What a field holds, from its lowest segment on. -/
def readField (regs : Memory) : List Segment → Nat
  | [] => 0
  | segment :: rest => segment.read regs + 2 ^ segment.width * readField regs rest

/-- The segments of a list hold a number's bits from `low` on, in turn. -/
def FieldHolds (regs : Memory) (n : Nat) : Nat → List Segment → Prop
  | _, [] => True
  | low, segment :: rest =>
    segment.read regs = bits low segment.width n ∧ FieldHolds regs n (low + segment.width) rest

/-- The number of bits of a field. -/
def fieldWidth (segments : List Segment) : Nat := (segments.map Segment.width).sum

/-- A number whose bits the segments hold is read back, up to the width of the field. -/
theorem readField_of_holds {regs : Memory} {n low : Nat} {segments : List Segment}
    (holds : FieldHolds regs n low segments) :
    readField regs segments = bits low (fieldWidth segments) n := by
  induction segments generalizing low with
  | nil => simp [readField, fieldWidth, bits, Nat.mod_one]
  | cons segment rest ih =>
    obtain ⟨first, others⟩ := holds
    rw [readField, first, ih others, bits_append]
    rfl

end Cromwell.Std
