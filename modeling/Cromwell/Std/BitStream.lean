import Cromwell.Std.Memory

/-!
# Bits in a row of bytes

Bytes are read as one row of bits, each byte from its lowest bit on. A field of
bits is a number, its first bit the lowest; fields that adjoin combine like the
digits of a number, so a buffer that holds a few bits of the row can be described
by the field it holds.
-/

namespace Cromwell.Std

/-! ## Rows of bits -/

/-- The number a row of bits spells, the first one the lowest. -/
def bitsValue : List Bool → Nat
  | [] => 0
  | bit :: rest => bit.toNat + 2 * bitsValue rest

/-- The lowest `width` bits of a number, the lowest one first. -/
def numberBits : (width n : Nat) → List Bool
  | 0, _ => []
  | width + 1, n => n.testBit 0 :: numberBits width (n / 2)

section Rows

theorem bitsValue_lt (bits : List Bool) : bitsValue bits < 2 ^ bits.length := by
  induction bits with
  | nil => simp [bitsValue]
  | cons bit rest ih =>
      have small : bit.toNat ≤ 1 := Bool.toNat_le bit
      rw [bitsValue, List.length_cons, pow_succ]
      omega

theorem bitsValue_append (first second : List Bool) :
    bitsValue (first ++ second) = bitsValue first + 2 ^ first.length * bitsValue second := by
  induction first with
  | nil => simp [bitsValue]
  | cons bit first ih =>
      rw [List.cons_append, bitsValue, bitsValue, ih, List.length_cons, pow_succ]
      ring

@[simp] theorem length_numberBits (width n : Nat) : (numberBits width n).length = width := by
  induction width generalizing n with
  | zero => rfl
  | succ width ih => simp [numberBits, ih]

/-- A number is spelled by its bits, up to their count. -/
@[simp] theorem bitsValue_numberBits (width n : Nat) :
    bitsValue (numberBits width n) = n % 2 ^ width := by
  induction width generalizing n with
  | zero => simp [numberBits, bitsValue, Nat.mod_one]
  | succ width ih =>
      have low : (n.testBit 0).toNat = n % 2 := by
        rw [Nat.testBit_zero]
        rcases Nat.mod_two_eq_zero_or_one n with even | odd
        · simp [even]
        · simp [odd]
      rw [numberBits, bitsValue, ih, low, pow_succ, Nat.mul_comm (2 ^ width) 2, Nat.mod_mul]

/-- The bits of a byte. -/
def byteBits (byte : Byte) : List Bool := numberBits 8 byte.toNat

@[simp] theorem length_byteBits (byte : Byte) : (byteBits byte).length = 8 :=
  length_numberBits 8 byte.toNat

@[simp] theorem bitsValue_byteBits (byte : Byte) : bitsValue (byteBits byte) = byte.toNat := by
  rw [byteBits, bitsValue_numberBits]
  exact Nat.mod_eq_of_lt byte.toNat_lt

/-- A row of bytes has eight bits for each. -/
@[simp] theorem length_flatMap_byteBits (bytes : List Byte) :
    (bytes.flatMap byteBits).length = 8 * bytes.length := by
  induction bytes with
  | nil => rfl
  | cons byte bytes ih =>
      rw [List.flatMap_cons, List.length_append, length_byteBits, ih, List.length_cons]
      omega

/-- Different bytes have different bits. -/
theorem flatMap_byteBits_inj {first second : List Byte}
    (same : first.flatMap byteBits = second.flatMap byteBits) : first = second := by
  induction first generalizing second with
  | nil =>
      cases second with
      | nil => rfl
      | cons byte rest => simp [byteBits, numberBits] at same
  | cons byte first ih =>
      cases second with
      | nil => simp [byteBits, numberBits] at same
      | cons byte' second =>
          rw [List.flatMap_cons, List.flatMap_cons] at same
          obtain ⟨bits, rests⟩ := List.append_inj same (by simp)
          have value := congrArg bitsValue bits
          rw [bitsValue_byteBits, bitsValue_byteBits] at value
          rw [UInt8.toNat_inj.mp value, ih rests]

end Rows

/-! ## Fields of a row of bytes -/

section Fields

variable (input : Nat → Byte)

/-- Bit `n` of the bytes. -/
def bitAt (n : Nat) : Bool := (input (n / 8)).toNat.testBit (n % 8)

/-- The number that the `width` bits from `position` on spell. -/
def fieldAt (position : Nat) : (width : Nat) → Nat
  | 0 => 0
  | width + 1 => (bitAt input position).toNat + 2 * fieldAt (position + 1) width

/-- From `position` on the bytes spell a row of bits. -/
def Spells (position : Nat) : List Bool → Prop
  | [] => True
  | bit :: rest => bitAt input position = bit ∧ Spells (position + 1) rest

variable {input}

@[simp] theorem fieldAt_zero (position : Nat) : fieldAt input position 0 = 0 := rfl

theorem fieldAt_lt (position width : Nat) : fieldAt input position width < 2 ^ width := by
  induction width generalizing position with
  | zero => simp
  | succ width ih =>
      have small := Bool.toNat_le (bitAt input position)
      have rest := ih (position + 1)
      rw [fieldAt, pow_succ]
      omega

/-- Fields that adjoin are one. -/
theorem fieldAt_add (position first second : Nat) :
    fieldAt input position (first + second) =
      fieldAt input position first + 2 ^ first * fieldAt input (position + first) second := by
  induction first generalizing position with
  | zero => simp
  | succ first ih =>
      have shifted : position + 1 + first = position + (first + 1) := by omega
      rw [Nat.add_right_comm, fieldAt, fieldAt, ih, shifted, pow_succ]
      ring

/-- The beginning of a field. -/
theorem fieldAt_mod (position : Nat) {width some : Nat} (within : some ≤ width) :
    fieldAt input position width % 2 ^ some = fieldAt input position some := by
  obtain ⟨rest, rfl⟩ := Nat.exists_eq_add_of_le within
  rw [fieldAt_add, Nat.add_mul_mod_self_left]
  exact Nat.mod_eq_of_lt (fieldAt_lt position some)

/-- A field without its beginning. -/
theorem fieldAt_div (position : Nat) {width some : Nat} (within : some ≤ width) :
    fieldAt input position width / 2 ^ some =
      fieldAt input (position + some) (width - some) := by
  obtain ⟨rest, rfl⟩ := Nat.exists_eq_add_of_le within
  rw [fieldAt_add, Nat.add_mul_div_left _ _ (Nat.two_pow_pos some),
    Nat.div_eq_of_lt (fieldAt_lt position some), Nat.zero_add, Nat.add_sub_cancel_left]

/-- A whole byte is a field. -/
theorem fieldAt_byte (index : Nat) : fieldAt input (8 * index) 8 = (input index).toNat := by
  have bit : ∀ k, k < 8 → bitAt input (8 * index + k) = (input index).toNat.testBit k := by
    intro k bound
    have whole : (8 * index + k) / 8 = index := by omega
    have part : (8 * index + k) % 8 = k := by omega
    rw [bitAt, whole, part]
  have field : ∀ width from', from' + width = 8 →
      fieldAt input (8 * index + from') width = (input index).toNat / 2 ^ from' := by
    intro width
    induction width with
    | zero =>
        intro from' total
        have short : (input index).toNat / 2 ^ from' = 0 := by
          apply Nat.div_eq_of_lt
          rw [show from' = 8 by omega]
          exact (input index).toNat_lt
        rw [short, fieldAt_zero]
    | succ width ih =>
        intro from' total
        have low : ((input index).toNat.testBit from').toNat =
            (input index).toNat / 2 ^ from' % 2 := by
          rw [Nat.toNat_testBit]
        have half : (input index).toNat / 2 ^ (from' + 1) =
            (input index).toNat / 2 ^ from' / 2 := by
          rw [pow_succ, Nat.div_div_eq_div_mul]
        rw [fieldAt, Nat.add_assoc, ih (from' + 1) (by omega), bit from' (by omega), low, half]
        omega
  simpa using field 8 0 (by omega)

theorem spells_cons (position : Nat) (bit : Bool) (rest : List Bool) :
    Spells input position (bit :: rest) ↔
      bitAt input position = bit ∧ Spells input (position + 1) rest := Iff.rfl

@[simp] theorem spells_append (position : Nat) (first second : List Bool) :
    Spells input position (first ++ second) ↔
      Spells input position first ∧ Spells input (position + first.length) second := by
  induction first generalizing position with
  | nil => simp [Spells]
  | cons bit first ih =>
      have shifted : position + 1 + first.length = position + (first.length + 1) := by omega
      rw [List.cons_append, spells_cons, spells_cons, ih, List.length_cons, shifted, and_assoc]

/-- A field whose bits are known holds the number they spell. -/
theorem Spells.fieldAt {position : Nat} {bits : List Bool} (spells : Spells input position bits) :
    fieldAt input position bits.length = bitsValue bits := by
  induction bits generalizing position with
  | nil => rfl
  | cons bit rest ih =>
      rw [List.length_cons, Std.fieldAt, spells.1, ih spells.2, bitsValue]

/-- A field that holds a number. -/
theorem Spells.number {position width n : Nat} (spells : Spells input position (numberBits width n))
    (bounded : n < 2 ^ width) : Std.fieldAt input position width = n := by
  have field := spells.fieldAt
  rwa [length_numberBits, bitsValue_numberBits, Nat.mod_eq_of_lt bounded] at field

/-- A field that holds the number a row of bits spells, spells the row. -/
theorem Spells.of_fieldAt {position : Nat} {bits : List Bool}
    (field : Std.fieldAt input position bits.length = bitsValue bits) :
    Spells input position bits := by
  induction bits generalizing position with
  | nil => trivial
  | cons bit rest ih =>
      rw [List.length_cons, Std.fieldAt, bitsValue] at field
      have low := Bool.toNat_le (bitAt input position)
      have low' := Bool.toNat_le bit
      have same : (bitAt input position).toNat = bit.toNat := by omega
      refine ⟨?_, ih (by omega)⟩
      generalize bitAt input position = read at same
      cases read with
      | false => cases bit with
        | false => rfl
        | true => simp at same
      | true => cases bit with
        | false => simp at same
        | true => rfl

/-- Bytes are spelled from where they stand. -/
theorem spells_bytes {index : Nat} {bytes : List Byte} :
    Spells input (8 * index) (bytes.flatMap byteBits) ↔
      ∀ k (inside : k < bytes.length), input (index + k) = bytes[k] := by
  induction bytes generalizing index with
  | nil => simp [Spells]
  | cons byte rest ih =>
      have next : 8 * index + 8 = 8 * (index + 1) := by omega
      have first : Spells input (8 * index) (byteBits byte) ↔ input index = byte := by
        constructor
        · intro spells
          have field := spells.fieldAt
          rw [length_byteBits, bitsValue_byteBits, fieldAt_byte] at field
          exact UInt8.toNat_inj.mp field
        · rintro rfl
          apply Spells.of_fieldAt
          rw [length_byteBits, bitsValue_byteBits, fieldAt_byte]
      rw [List.flatMap_cons, spells_append, length_byteBits, next, first, ih]
      constructor
      · rintro ⟨same, others⟩ k inside
        cases k with
        | zero => exact same
        | succ k =>
            have place : index + (k + 1) = index + 1 + k := by omega
            rw [place]
            exact others k (by simpa using inside)
      · intro all
        refine ⟨all 0 (by simp), fun k inside => ?_⟩
        have place : index + 1 + k = index + (k + 1) := by omega
        rw [place]
        exact all (k + 1) (by simpa using inside)

/-- A byte that is spelled. -/
theorem Spells.byte {index : Nat} {byte : Byte}
    (spells : Spells input (8 * index) (byteBits byte)) :
    input index = byte := by
  have bytes : Spells input (8 * index) ([byte].flatMap byteBits) := by simpa using spells
  exact spells_bytes.mp bytes 0 Nat.one_pos

/-- Bytes after bytes. -/
theorem spells_bytes_append {index : Nat} {first second : List Byte} :
    Spells input (8 * index) ((first ++ second).flatMap byteBits) ↔
      Spells input (8 * index) (first.flatMap byteBits) ∧
        Spells input (8 * (index + first.length)) (second.flatMap byteBits) := by
  rw [List.flatMap_append, spells_append, length_flatMap_byteBits, ← Nat.mul_add]

/-- A row of bits in bytes. -/
def packed (bits : List Bool) (index : Nat) : Byte :=
  UInt8.ofNat (bitsValue ((bits.drop (8 * index)).take 8))

theorem testBit_bitsValue (bits : List Bool) (k : Nat) :
    (bitsValue bits).testBit k = bits.getD k false := by
  induction bits generalizing k with
  | nil => simp [bitsValue]
  | cons bit rest ih =>
      have small := Bool.toNat_le bit
      cases k with
      | zero =>
          rw [bitsValue, Nat.testBit_zero, Nat.add_mul_mod_self_left]
          cases bit with
          | false => rfl
          | true => rfl
      | succ k =>
          have half : (bit.toNat + 2 * bitsValue rest) / 2 = bitsValue rest := by omega
          rw [bitsValue, Nat.testBit_succ, half, ih]
          rfl

theorem spells_of_bitAt {position : Nat} {bits : List Bool}
    (read : ∀ k < bits.length, bitAt input (position + k) = bits.getD k false) :
    Spells input position bits := by
  induction bits generalizing position with
  | nil => trivial
  | cons bit rest ih =>
      refine ⟨read 0 (Nat.succ_pos _), ih fun k inside => ?_⟩
      have bit := read (k + 1) (Nat.succ_lt_succ inside)
      rwa [← Nat.add_assoc, Nat.add_right_comm] at bit

/-- Bytes that are the same up to the end of the bits spell them as well. -/
theorem Spells.congr {input' : Nat → Byte} {position count : Nat} {bits : List Bool}
    (spells : Spells input position bits) (inside : position + bits.length ≤ 8 * count)
    (same : ∀ k < count, input k = input' k) : Spells input' position bits := by
  induction bits generalizing position with
  | nil => trivial
  | cons bit rest ih =>
      rw [List.length_cons] at inside
      obtain ⟨first, others⟩ := spells
      refine ⟨?_, ih others (by omega)⟩
      rwa [bitAt, ← same _ (by omega)]

/-- The bytes of a row of bits spell it. -/
theorem spells_packed (bits : List Bool) : Spells (packed bits) 0 bits := by
  apply spells_of_bitAt
  intro k inside
  have small := bitsValue_lt ((bits.drop (8 * (k / 8))).take 8)
  have eight : ((bits.drop (8 * (k / 8))).take 8).length ≤ 8 := List.length_take_le 8 _
  have byte : bitsValue ((bits.drop (8 * (k / 8))).take 8) < 256 :=
    lt_of_lt_of_le small (Nat.pow_le_pow_right (by omega) eight)
  have place : 8 * (k / 8) + k % 8 = k := Nat.div_add_mod k 8
  rw [Nat.zero_add, bitAt, packed, UInt8.toNat_ofNat', Nat.mod_eq_of_lt byte, testBit_bitsValue,
    List.getD_eq_getElem?_getD, List.getElem?_take_of_lt (by omega), List.getElem?_drop, place,
    ← List.getD_eq_getElem?_getD]

end Fields

end Cromwell.Std
