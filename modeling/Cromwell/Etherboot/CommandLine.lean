import Mathlib.Tactic
import Cromwell.Etherboot.Xbox

/-!
# When the command line is assembled as it should be

The line holds the parameters, a space and as much of the option as fits, as long
as the length that is copied is not negative and is the right one. It is with a
parameters segment of up to 510 characters and an option of up to 127 bytes;
without a segment it depends on what the stack held before.
-/

namespace Cromwell.Etherboot

open Cromwell.Std

/-! ## What the line should be -/

/-- The parameters string, truncated to 511 bytes. -/
def paramsText : Option Memory → List Byte
  | some params => cut (params.bytes 0 511)
  | none => []

/-- A text and the space behind it, if there is one. -/
def spaced (text : List Byte) : List Byte := if text = [] then [] else text ++ [0x20]

/-- The parameters string and the space behind it. -/
def separated (params : Option Memory) : List Byte := spaced (paramsText params)

/-- The parameters string, followed by what fits of the option, if one is found. -/
def expectedLine (params : Option Memory) (vend : Memory) : Option (Nat × Byte) → List Byte
  | some (bootpCmdline, tagLen) => separated params ++
      vend.bytes bootpCmdline (min tagLen.toNat (511 - (separated params).length))
  | none => paramsText params

/-- The line ends within its 512 bytes, nothing outside of it is written, and its text is the
expected one. -/
structure Assembled (expected : List Byte) (line : AppendLine) : Prop where
  inside : ∀ write ∈ line.writes, 0 ≤ write.1 ∧ write.1 + write.2 ≤ 512
  text : ∃ text, HoldsString line.bytes text ∧ text.length < 512 ∧ text = cut expected

/-- The condition on the parameters, the option and the stack. -/
def LineFits (params : Option Memory) (vend : Memory) (stack : Terminated) :
    Option (Nat × Byte) → Prop
  | none => True
  | some (bootpCmdline, tagLen) =>
      match params with
      | some _ => tagLen.toNat ≤ 127 ∧ (paramsText params).length ≤ 510
      | none =>
          let stackLength := Int32.ofNat stack.strlen
          let room := (512 - stackLength - 2).toInt8.toInt
          if stackLength + tagLen.toInt8.toInt32 ≤ 510 then tagLen.toNat ≤ 127
          else 0 ≤ room ∧ (room.toNat = tagLen.toNat ∨
            ∃ k ≤ min room.toNat tagLen.toNat, vend (bootpCmdline + k) = 0)

/-! ## The line before the option -/

/-- What is known of the line before the option is appended. -/
structure Started.Holds (started : Started) (text : List Byte) : Prop where
  inside : ∀ write ∈ started.line.writes, 0 ≤ write.1 ∧ write.1 + write.2 ≤ 512
  nonzero : 0 ∉ text
  place : started.appendLinePtr = text.length
  bytes : started.line.bytes.bytes 0 text.length = text
  short : text.length ≤ 511

theorem loadParams_holds (params : Option Memory) (stack : Terminated) :
    (loadParams params stack).Holds (paramsText params) := by
  cases params with
  | none =>
      exact ⟨by simp [loadParams], by simp [paramsText], rfl, rfl, by simp [paramsText]⟩
  | some params =>
      have loaded : (loadParams (some params) stack).line.bytes =
          (stack.bytes.memcpy 0 params 0 512).set 511 0 := AppendLine.put_bytes _ 511 0
      have zero : (loadParams (some params) stack).line.bytes 511 = 0 := by
        rw [loaded, Memory.set_same]
      have front :
          (loadParams (some params) stack).line.bytes.bytes 0 511 = params.bytes 0 511 := by
        apply Memory.bytes_congr
        intro k inside
        rw [loaded, Memory.set_other _ (by omega), Memory.memcpy_inside _ _ (by omega) (by omega)]
        congr 1
        omega
      have length : (params.bytes 0 511).length = 511 := Memory.length_bytes _ _ _
      have holds : HoldsString (loadParams (some params) stack).line.bytes
          (paramsText (some params)) := by
        apply holdsString_cut
        · rw [length, front]
        · rw [length, zero]
      refine ⟨?_, holds.nonzero, ?_, holds.bytes, ?_⟩
      · simp [loadParams, AppendLine.memcpy, AppendLine.put, maxAppendLineLength]
      · exact Terminated.strlen_eq _ holds
      · exact (length_cut_le (params.bytes 0 511)).trans_eq length

/-! ## The line behind the option -/

/-- A `char` as a count: a negative one is beyond every object. -/
theorem toNat_count (length : Int8) : (length.toInt32.toUInt32.toNat : Int) =
    if 0 ≤ length.toInt then length.toInt else 2 ^ 32 + length.toInt := by
  have value : length.toInt32.toInt = length.toInt := Int8.toInt_toInt32 length
  have bits : length.toInt32.toUInt32.toNat = length.toInt32.toBitVec.toNat := rfl
  have signed : length.toInt32.toInt = length.toInt32.toBitVec.toInt := rfl
  have lower := length.minValue_le_toInt
  have upper := length.toInt_le
  have small : (Int8.minValue.toInt = -128) ∧ Int8.maxValue.toInt = 127 := by decide
  have below' := length.toInt32.toBitVec.isLt
  rw [BitVec.toInt_eq_toNat_bmod, Int.bmod_def] at signed
  rw [bits]
  split at signed <;> split <;> omega

theorem zero_notMem_spaced {text : List Byte} (nonzero : 0 ∉ text) : 0 ∉ spaced text := by
  unfold spaced
  split_ifs
  · exact List.not_mem_nil
  · simp [nonzero]

/-- The line with its space. -/
def Started.withSpace (started : Started) : AppendLine × Nat :=
  if started.appendLinePtr ≠ 0 then
    (started.line.put started.appendLinePtr 0x20, started.appendLinePtr + 1)
  else (started.line, started.appendLinePtr)

theorem appendCmdline_eq (started : Started) (vend : Memory) (bootpCmdline : Nat) (tagLen : Byte) :
    appendCmdline started vend bootpCmdline tagLen =
      let length := adjustLength (Int32.ofNat started.strlen) tagLen.toInt8
      (started.withSpace.1.memcpy started.withSpace.2 vend bootpCmdline
        length.toInt32.toUInt32.toNat).put (started.withSpace.2 + length.toInt) 0 := rfl

section Append

variable {started : Started} {text : List Byte}

theorem Started.Holds.withSpace (holds : started.Holds text) :
    (∀ write ∈ started.withSpace.1.writes, 0 ≤ write.1 ∧ write.1 + write.2 ≤ 512) ∧
      started.withSpace.2 = (spaced text).length ∧
      started.withSpace.1.bytes.bytes 0 (spaced text).length = spaced text := by
  obtain ⟨inside, nonzero, place, bytes, short⟩ := holds
  unfold Started.withSpace spaced
  by_cases empty : text = []
  · subst empty
    have start : started.appendLinePtr = 0 := place
    simp only [start, ne_eq, not_true_eq_false, if_false, if_true]
    exact ⟨inside, rfl, rfl⟩
  · have start : started.appendLinePtr ≠ 0 := by
      rw [place]
      simpa using empty
    rw [if_pos start, if_neg empty]
    refine ⟨?_, by simp [place], ?_⟩
    · intro write member
      rw [AppendLine.put_writes, List.mem_append, List.mem_singleton] at member
      rcases member with before | rfl
      · exact inside write before
      · dsimp only
        omega
    · rw [List.length_append, Memory.bytes_add, AppendLine.put_bytes, place]
      congr 1
      · rw [← bytes, Memory.length_bytes]
        apply Memory.bytes_congr
        intro k before
        exact Memory.set_other _ (by omega)
      · simp [Memory.bytes]

/-- The line behind an option of which `length` bytes have been copied. -/
def Started.copied (started : Started) (vend : Memory) (bootpCmdline length : Nat) : AppendLine :=
  (started.withSpace.1.memcpy started.withSpace.2 vend bootpCmdline length).put
    (started.withSpace.2 + length : Nat) 0

theorem Started.Holds.copied_holds (holds : started.Holds text) (vend : Memory)
    (bootpCmdline length : Nat) :
    HoldsString (started.copied vend bootpCmdline length).bytes
      (cut (spaced text ++ vend.bytes bootpCmdline length)) := by
  obtain ⟨_, place, bytes⟩ := holds.withSpace
  have total : (spaced text ++ vend.bytes bootpCmdline length).length =
      (spaced text).length + length := by simp
  unfold Started.copied
  rw [AppendLine.put_bytes, AppendLine.memcpy_bytes, place]
  apply holdsString_cut
  · rw [total, Memory.bytes_add]
    congr 1
    · calc
        _ = started.withSpace.1.bytes.bytes 0 (spaced text).length := by
          apply Memory.bytes_congr
          intro k before
          rw [Memory.set_other _ (by omega), Memory.memcpy_outside _ _ (.inl (by omega))]
        _ = spaced text := bytes
    · apply Memory.bytes_congr
      intro k before
      rw [Memory.set_other _ (by omega), Memory.memcpy_inside _ _ (by omega) (by omega)]
      congr 1
      omega
  · rw [total, Memory.set_same]

theorem Started.Holds.copied_inside_iff (holds : started.Holds text) (vend : Memory)
    (bootpCmdline length : Nat) :
    (∀ write ∈ (started.copied vend bootpCmdline length).writes,
      0 ≤ write.1 ∧ write.1 + write.2 ≤ 512) ↔ (spaced text).length + length ≤ 511 := by
  obtain ⟨inside, place, _⟩ := holds.withSpace
  unfold Started.copied
  rw [AppendLine.put_writes, AppendLine.memcpy_writes, place]
  constructor
  · intro all
    have last := all (((spaced text).length + length : Nat), 1) (by simp)
    dsimp only at last
    omega
  · intro short write member
    rw [List.mem_append, List.mem_append, List.mem_singleton, List.mem_singleton] at member
    rcases member with (before | rfl) | rfl
    · exact inside write before
    · dsimp only
      omega
    · dsimp only
      omega

/-- The line is the expected one when the length that is copied fits and is the right one, or
when it goes wrong behind the end of the option's string only. -/
theorem Started.Holds.assembled_copied_iff (holds : started.Holds text) (vend : Memory)
    (bootpCmdline length fitting : Nat) :
    Assembled (spaced text ++ vend.bytes bootpCmdline fitting)
        (started.copied vend bootpCmdline length) ↔
      (spaced text).length + length ≤ 511 ∧
        (length = fitting ∨ ∃ k ≤ min length fitting, vend (bootpCmdline + k) = 0) := by
  have nonzero := zero_notMem_spaced holds.nonzero
  have held := holds.copied_holds vend bootpCmdline length
  rw [← cut_bytes_eq_iff, ← holds.copied_inside_iff vend bootpCmdline length]
  constructor
  · rintro ⟨inside, other, held', _, same⟩
    refine ⟨inside, ?_⟩
    have equal := held.unique held'
    rw [same, cut_append nonzero, cut_append nonzero] at equal
    exact List.append_cancel_left equal
  · rintro ⟨inside, same⟩
    have short := (holds.copied_inside_iff vend bootpCmdline length).mp inside
    have equal : cut (spaced text ++ vend.bytes bootpCmdline length) =
        cut (spaced text ++ vend.bytes bootpCmdline fitting) := by
      rw [cut_append nonzero, cut_append nonzero, same]
    refine ⟨inside, _, held, ?_, equal⟩
    have bound := length_cut_le (spaced text ++ vend.bytes bootpCmdline length)
    simp only [List.length_append, Memory.length_bytes] at bound
    omega

theorem appendCmdline_of_nonneg (started : Started) (vend : Memory) (bootpCmdline : Nat)
    {tagLen : Byte} {length : Nat}
    (nonneg : (adjustLength (Int32.ofNat started.strlen) tagLen.toInt8).toInt = length) :
    appendCmdline started vend bootpCmdline tagLen = started.copied vend bootpCmdline length := by
  have count := toNat_count (adjustLength (Int32.ofNat started.strlen) tagLen.toInt8)
  have exact : (adjustLength (Int32.ofNat started.strlen) tagLen.toInt8).toInt32.toUInt32.toNat =
      length := by
    rw [nonneg, if_pos (by omega)] at count
    exact_mod_cast count
  rw [appendCmdline_eq]
  dsimp only
  rw [exact, nonneg, Started.copied, Nat.cast_add]

theorem not_assembled_of_negative (started : Started) (vend : Memory) (bootpCmdline : Nat)
    {tagLen : Byte} (expected : List Byte)
    (negative : (adjustLength (Int32.ofNat started.strlen) tagLen.toInt8).toInt < 0) :
    ¬Assembled expected (appendCmdline started vend bootpCmdline tagLen) := by
  intro assembled
  have count := toNat_count (adjustLength (Int32.ofNat started.strlen) tagLen.toInt8)
  rw [if_neg (by omega)] at count
  have lower := (adjustLength (Int32.ofNat started.strlen) tagLen.toInt8).minValue_le_toInt
  have small : Int8.minValue.toInt = -128 := by decide
  have copy := assembled.inside (started.withSpace.2,
    (adjustLength (Int32.ofNat started.strlen) tagLen.toInt8).toInt32.toUInt32.toNat) (by
      rw [appendCmdline_eq]
      simp)
  dsimp only at copy
  omega

/-- The line is the expected one when the length that is copied is not negative, fits, and is
the right one for the option's string. -/
theorem Started.Holds.assembled_append_iff (holds : started.Holds text) (vend : Memory)
    (bootpCmdline : Nat) (tagLen : Byte) (fitting : Nat) :
    Assembled (spaced text ++ vend.bytes bootpCmdline fitting)
        (appendCmdline started vend bootpCmdline tagLen) ↔
      ∃ length : Nat,
        (adjustLength (Int32.ofNat started.strlen) tagLen.toInt8).toInt = length ∧
        (spaced text).length + length ≤ 511 ∧
        (length = fitting ∨ ∃ k ≤ min length fitting, vend (bootpCmdline + k) = 0) := by
  by_cases nonneg : 0 ≤ (adjustLength (Int32.ofNat started.strlen) tagLen.toInt8).toInt
  · obtain ⟨length, value⟩ := Int.eq_ofNat_of_zero_le nonneg
    rw [appendCmdline_of_nonneg started vend bootpCmdline value,
      holds.assembled_copied_iff vend bootpCmdline length fitting]
    constructor
    · exact fun right => ⟨length, value, right⟩
    · rintro ⟨other, value', right⟩
      have same : other = length := by omega
      rwa [same] at right
  · apply iff_of_false
    · exact not_assembled_of_negative started vend bootpCmdline _ (by omega)
    · rintro ⟨length, value, _⟩
      omega

end Append

/-! ## The length that is copied -/

/-- A tag length as a `char`. -/
theorem toInt_tagLen (tagLen : Byte) : tagLen.toInt8.toInt =
    if tagLen.toNat ≤ 127 then (tagLen.toNat : Int) else tagLen.toNat - 256 := by
  have bits : tagLen.toInt8.toInt = tagLen.toBitVec.toInt := rfl
  have below' := tagLen.toNat_lt
  rw [bits, BitVec.toInt_eq_toNat_bmod, Int.bmod_def, UInt8.toNat_toBitVec]
  split <;> split <;> omega

/-- Behind a parameters segment the length is what is left for it. -/
theorem toInt_adjustLength {oldLength : Nat} (short : oldLength ≤ 511) (tagLen : Byte) :
    (adjustLength (Int32.ofNat oldLength) tagLen.toInt8).toInt =
      if 510 < oldLength + tagLen.toInt8.toInt then (510 : Int) - oldLength
      else tagLen.toInt8.toInt := by
  have old : (Int32.ofNat oldLength).toInt = oldLength := Int32.toInt_ofNat_of_lt (by omega)
  have wide : tagLen.toInt8.toInt32.toInt = tagLen.toInt8.toInt := Int8.toInt_toInt32 _
  have tag := toInt_tagLen tagLen
  have bound := tagLen.toNat_lt
  have sum : (Int32.ofNat oldLength + tagLen.toInt8.toInt32).toInt =
      oldLength + tagLen.toInt8.toInt := by
    rw [Int32.toInt_add, old, wide, Int.bmod_def]
    split <;> split at tag <;> omega
  have limit : (510 : Int32).toInt = 510 := rfl
  unfold adjustLength
  by_cases long : 510 < oldLength + tagLen.toInt8.toInt
  · have long' : 510 < Int32.ofNat oldLength + tagLen.toInt8.toInt32 := by
      rw [Int32.lt_iff_toInt_lt, sum, limit]
      exact long
    rw [if_pos long', if_pos long]
    have whole : (512 : Int32).toInt = 512 := rfl
    have two : (2 : Int32).toInt = 2 := rfl
    have room : (512 - Int32.ofNat oldLength - 2 : Int32).toInt = 510 - oldLength := by
      rw [Int32.toInt_sub, Int32.toInt_sub, old, whole, two, Int.bmod_def, Int.bmod_def]
      split <;> split <;> omega
    rw [Int32.toInt_toInt8, room, Int.bmod_def]
    split at tag <;> split <;> omega
  · have short' : ¬510 < Int32.ofNat oldLength + tagLen.toInt8.toInt32 := by
      rw [Int32.lt_iff_toInt_lt, sum, limit]
      exact long
    rw [if_neg short', if_neg long]

/-! ## When the line is assembled -/

theorem assembled_put (params : Option Memory) (stack : Terminated) :
    Assembled (paramsText params)
      ((loadParams params stack).line.put (loadParams params stack).appendLinePtr 0) := by
  obtain ⟨inside, nonzero, place, bytes, short⟩ := loadParams_holds params stack
  refine ⟨?_, paramsText params, ⟨nonzero, ?_, ?_⟩, by omega, (cut_of_notMem nonzero).symm⟩
  · intro write member
    rw [AppendLine.put_writes, List.mem_append, List.mem_singleton] at member
    rcases member with before | rfl
    · exact inside write before
    · dsimp only
      omega
  · rw [AppendLine.put_bytes, place]
    calc
      _ = (loadParams params stack).line.bytes.bytes 0 (paramsText params).length := by
        apply Memory.bytes_congr
        intro k before
        exact Memory.set_other _ (by omega)
      _ = paramsText params := bytes
  · rw [AppendLine.put_bytes, place, Memory.set_same]

theorem length_spaced (text : List Byte) :
    (spaced text).length = if text.length = 0 then 0 else text.length + 1 := by
  unfold spaced
  by_cases empty : text = [] <;> simp [empty]

theorem assembled_params_iff (params : Memory) (vend : Memory) (stack : Terminated)
    (bootpCmdline : Nat) (tagLen : Byte) :
    Assembled (expectedLine (some params) vend (some (bootpCmdline, tagLen)))
        (appendCmdline (loadParams (some params) stack) vend bootpCmdline tagLen) ↔
      LineFits (some params) vend stack (some (bootpCmdline, tagLen)) := by
  have holds := loadParams_holds (some params) stack
  have short := holds.short
  have old : (loadParams (some params) stack).strlen = (paramsText (some params)).length :=
    holds.place
  have width := length_spaced (paramsText (some params))
  have value := toInt_adjustLength short tagLen
  have tag := toInt_tagLen tagLen
  have bound := tagLen.toNat_lt
  unfold expectedLine separated LineFits
  dsimp only
  rw [holds.assembled_append_iff, old, value]
  constructor
  · rintro ⟨length, copied, _, _⟩
    split at copied <;> split at tag <;> omega
  · rintro ⟨small, fits⟩
    rw [if_pos small] at tag
    refine ⟨min tagLen.toNat (511 - (spaced (paramsText (some params))).length), ?_, ?_, .inl rfl⟩
    · split <;> split at width <;> omega
    · split at width <;> omega

/-- Without a parameters segment the length depends on the bytes that the stack held before. -/
theorem assembled_none_iff (vend : Memory) (stack : Terminated) (bootpCmdline : Nat)
    (tagLen : Byte) :
    Assembled (expectedLine none vend (some (bootpCmdline, tagLen)))
        (appendCmdline (loadParams none stack) vend bootpCmdline tagLen) ↔
      LineFits none vend stack (some (bootpCmdline, tagLen)) := by
  have holds := loadParams_holds none stack
  have old : (loadParams none stack).strlen = stack.strlen := rfl
  have width : (spaced (paramsText none)).length = 0 := rfl
  have tag := toInt_tagLen tagLen
  have bound := tagLen.toNat_lt
  unfold expectedLine separated LineFits
  dsimp only
  rw [holds.assembled_append_iff, old, width, adjustLength]
  have whole : min tagLen.toNat (511 - 0) = tagLen.toNat := by omega
  rw [whole]
  by_cases short : Int32.ofNat stack.strlen + tagLen.toInt8.toInt32 ≤ 510
  · rw [if_pos short, if_neg (Int32.not_lt.mpr short)]
    constructor
    · rintro ⟨length, copied, _⟩
      split at tag <;> omega
    · intro small
      rw [if_pos small] at tag
      exact ⟨tagLen.toNat, tag, by omega, .inl rfl⟩
  · rw [if_neg short, if_pos (Int32.not_le.mp short)]
    have upper := (512 - Int32.ofNat stack.strlen - 2).toInt8.toInt_le
    have small : Int8.maxValue.toInt = 127 := by decide
    constructor
    · rintro ⟨length, copied, _, right⟩
      rw [copied]
      exact ⟨by omega, right⟩
    · rintro ⟨nonneg, right⟩
      exact ⟨_, (Int.toNat_of_nonneg nonneg).symm, by omega, right⟩

/-- The command line is assembled as it should be exactly when its parts fit: the option is at
most 127 bytes long, and the parameters leave a byte for the separator. -/
theorem xstart32_assembled_iff (notes : BootNotes) (stack : Terminated) :
    (∃ line, xstart32 (some notes) stack = some line ∧
      Assembled (expectedLine notes.segment notes.vend
        (findCmdline notes.vend notes.endOfRfc1533)) line) ↔
      LineFits notes.segment notes.vend stack (findCmdline notes.vend notes.endOfRfc1533) := by
  have passed : xstart32 (some notes) stack = some
      (match findCmdline notes.vend notes.endOfRfc1533 with
      | some (bootpCmdline, tagLen) =>
          appendCmdline (loadParams notes.segment stack) notes.vend bootpCmdline tagLen
      | none => (loadParams notes.segment stack).line.put
          (loadParams notes.segment stack).appendLinePtr 0) := rfl
  rw [passed]
  simp only [Option.some.injEq, exists_eq_left']
  cases findCmdline notes.vend notes.endOfRfc1533 with
  | none => exact iff_of_true (assembled_put notes.segment stack) trivial
  | some found =>
      cases notes.segment with
      | none => exact assembled_none_iff notes.vend stack found.1 found.2
      | some params => exact assembled_params_iff params notes.vend stack found.1 found.2

/-- A reply with a command line of 200 bytes. -/
def longReply : Memory := fun k =>
  [99, 130, 83, 99, 128, 6, 0xE4, 0x45, 0x74, 0x68, 0, 0, 129, 200].getD k 0x61

/-- Parameters of one character, and a reply with a long command line. -/
def longNotes : BootNotes :=
  { recognized := true
    params := some fun k => if k = 0 then 0x61 else 0
    vend := longReply
    endOfRfc1533 := 214 }

/-- A stack of zero bytes. -/
def zeroStack : Terminated := ⟨fun _ => 0, 0, rfl⟩

/-- The length of a long option is negative, and the copy goes through all of the memory. -/
theorem not_xstart32_assembled : ¬∀ notes stack, ∃ line, xstart32 (some notes) stack = some line ∧
    Assembled (expectedLine notes.segment notes.vend
      (findCmdline notes.vend notes.endOfRfc1533)) line := by
  intro assembled
  obtain ⟨line, passed, right⟩ := assembled longNotes zeroStack
  have found : findCmdline longNotes.vend longNotes.endOfRfc1533 = some (14, 200) := by decide
  have appended :
      line = appendCmdline (loadParams longNotes.segment zeroStack) longReply 14 200 := by
    have whole : xstart32 (some longNotes) zeroStack = some
        (appendCmdline (loadParams longNotes.segment zeroStack) longReply 14 200) := by
      simp only [xstart32, Option.map_some, found]
      rfl
    rw [whole] at passed
    exact (Option.some.inj passed).symm
  rw [found, appended] at right
  have fits := (assembled_params_iff _ longReply zeroStack 14 200).mp right
  exact absurd fits.1 (by decide)

end Cromwell.Etherboot
