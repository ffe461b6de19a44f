import Cromwell.Gzip.Streams
import Cromwell.Gzip.Checked

/-!
# Members

A member is a header, a row of blocks that starts at a byte boundary, and a trailer with
the code and the length of the data. `decompress_kernel` returns for every member that
the input begins with, and then it has written the data.
-/

namespace Cromwell.Gzip

open Cromwell.Std Program

/-! ## The format -/

/-- The header of a member that is not encrypted, has no code of its own and sets no
reserved flag. -/
structure MemberHeader where
  magic : Byte
  flags : Byte
  /-- The time stamp, the extra flags and the kind of system. -/
  stamp : List Byte
  extra : List Byte
  name : List Byte
  comment : List Byte
  known : magic = 0o213 ∨ magic = 0o236
  plain : flags.toNat &&& encryptedFlag = 0 ∧ flags.toNat &&& continuationFlag = 0 ∧
    flags.toNat &&& reservedFlag = 0
  stampLength : stamp.length = 6
  extraLength : extra.length < 2 ^ 16
  nameEnds : 0 ∉ name
  commentEnds : 0 ∉ comment

namespace MemberHeader

variable (header : MemberHeader)

/-- A field that is there if its flag is set. -/
def field (flag : Nat) (bytes : List Byte) : List Byte :=
  if header.flags.toNat &&& flag ≠ 0 then bytes else []

def bytes : List Byte :=
  [0o37, header.magic, 8, header.flags] ++ (header.stamp ++
    (header.field extraFieldFlag (UInt8.ofNat header.extra.length ::
      UInt8.ofNat (header.extra.length / 2 ^ 8) :: header.extra) ++
    (header.field origNameFlag (header.name ++ [0]) ++
      header.field commentFlag (header.comment ++ [0]))))

end MemberHeader

structure Member where
  header : MemberHeader
  blocks : List Block
  /-- What fills the last byte of the blocks up. -/
  padding : List Bool
  some : blocks ≠ []
  fit : AllFit (8 * header.bytes.length) [] blocks
  short : padding.length < 8
  boundary : (8 * header.bytes.length + (blocksBits blocks).length + padding.length) % 8 = 0

namespace Member

variable (member : Member)

/-- What was compressed. -/
def data : List Byte := expandBlocks [] member.blocks

/-- The code in the trailer. -/
def crc : Nat := (crcOf member.data ^^^ 0xffffffff#32).toNat

def bits : List Bool :=
  member.header.bytes.flatMap byteBits ++ (blocksBits member.blocks ++ (member.padding ++
    (numberBits 32 member.crc ++ numberBits 32 (member.data.length % 2 ^ 32))))

theorem length_bits : member.bits.length = 8 * member.header.bytes.length +
    ((blocksBits member.blocks).length + (member.padding.length + 64)) := by
  simp only [bits, List.length_append, length_flatMap_byteBits, length_numberBits]

end Member

/-! ## The header -/

section Header

variable {s : State}

/-- The state behind some more bytes of the input. -/
def State.advance (s : State) (count : Nat) : State := { s with inptr := s.inptr + count }

@[simp] theorem State.advance_inptr (count : Nat) : (s.advance count).inptr = s.inptr + count := rfl

@[simp] theorem State.advance_inputData (count : Nat) :
    (s.advance count).inputData = s.inputData := rfl

@[simp] theorem State.advance_inputLen (count : Nat) :
    (s.advance count).inputLen = s.inputLen := rfl

theorem State.advance_advance (first second : Nat) :
    (s.advance first).advance second = s.advance (first + second) := by
  rw [advance, advance, advance, Nat.add_assoc]

/-- A byte of the input that is open. -/
theorem getByte_reads (opened : s.insize = s.inputLen) (more : s.inptr < s.inputLen) :
    getByte.Ensures s (fun _ => False) fun byte after =>
      byte = s.inputData s.inptr ∧ after = s.advance 1 := by
  have inside : decide (s.inptr < s.insize) = true := by
    rw [decide_eq_true_iff, opened]
    exact more
  unfold getByte
  simp only [ensures_bind, ensures_look, inside, if_true]
  exact ⟨rfl, rfl⟩

/-- Bytes that are skipped. -/
theorem skipBytes_reads {count : Nat} (opened : s.insize = s.inputLen)
    (room : s.inptr + count ≤ s.inputLen) :
    (skipBytes count).Ensures s (fun _ => False) fun _ after => after = s.advance count := by
  induction count generalizing s with
  | zero => exact rfl
  | succ count ih =>
      rw [skipBytes]
      apply (getByte_reads opened (by omega)).andThen
      rintro _ _ ⟨-, rfl⟩
      apply (ih (s := s.advance 1) opened (by rw [State.advance_inptr, State.advance_inputLen]
                                              omega)).mono (fun _ none => none)
      rintro _ after rfl
      rw [State.advance_advance, Nat.add_comm 1]

/-- A string that is skipped ends with its first zero. -/
theorem skipString_reads {text : List Byte} {fuel : Nat} (opened : s.insize = s.inputLen)
    (room : s.inptr + (text.length + 1) ≤ s.inputLen)
    (spells : Spells s.inputData (8 * s.inptr) ((text ++ [0]).flatMap byteBits))
    (ends : 0 ∉ text) (enough : text.length < fuel) :
    (skipString fuel).Ensures s (fun _ => False) fun _ after =>
      after = s.advance (text.length + 1) := by
  unfold skipString
  obtain ⟨fuel, rfl⟩ : ∃ more, fuel = more + 1 := ⟨fuel - 1, by omega⟩
  rw [Program.loop]
  induction text generalizing s fuel with
  | nil =>
      rw [List.nil_append, List.flatMap_singleton] at spells
      rw [Program.bind_assoc]
      apply (getByte_reads opened (by omega)).andThen
      rintro _ _ ⟨rfl, rfl⟩
      rw [spells.byte, if_neg (not_not.mpr rfl)]
      exact rfl
  | cons byte text ih =>
      rw [List.length_cons] at room enough ⊢
      rw [List.cons_append, ← List.singleton_append, spells_bytes_append, List.flatMap_singleton]
        at spells
      have nonzero : byte ≠ 0 := by
        rintro rfl
        exact ends List.mem_cons_self
      rw [Program.bind_assoc]
      apply (getByte_reads opened (by omega)).andThen
      rintro _ _ ⟨rfl, rfl⟩
      rw [spells.1.byte, if_pos nonzero]
      obtain ⟨fuel, rfl⟩ : ∃ more, fuel = more + 1 := ⟨fuel - 1, by omega⟩
      rw [Program.pure_bind]
      dsimp only
      rw [Program.loop]
      have rest := ih (s := s.advance 1) opened
        (by rw [State.advance_inptr, State.advance_inputLen]; omega) spells.2
        (fun member => ends (List.mem_cons_of_mem _ member)) fuel (by omega)
      apply rest.mono (fun _ none => none)
      rintro _ after rfl
      rw [State.advance_advance, Nat.add_comm 1]

/-- Two bytes that make a number. -/
theorem getWord_reads {number : Nat} (opened : s.insize = s.inputLen)
    (room : s.inptr + 2 ≤ s.inputLen) (bounded : number < 2 ^ 16)
    (spells : Spells s.inputData (8 * s.inptr)
      ([UInt8.ofNat number, UInt8.ofNat (number / 2 ^ 8)].flatMap byteBits)) :
    getWord.Ensures s (fun _ => False) fun value after =>
      value = number ∧ after = s.advance 2 := by
  rw [← List.singleton_append, spells_bytes_append, List.flatMap_singleton,
    List.flatMap_singleton] at spells
  obtain ⟨low, high⟩ := spells
  unfold getWord
  apply (getByte_reads opened (by omega)).andThen
  rintro _ _ ⟨rfl, rfl⟩
  apply (getByte_reads (s := s.advance 1) opened
    (by rw [State.advance_inptr, State.advance_inputLen]; omega)).andThen
  rintro _ _ ⟨rfl, rfl⟩
  rw [ensures_pure, State.advance_advance, State.advance_inptr, State.advance_inputData, low.byte]
  refine ⟨?_, rfl⟩
  have highByte := high.byte
  rw [List.length_singleton] at highByte
  have lowSmall : (UInt8.ofNat number).toNat < 2 ^ 8 := UInt8.toNat_lt _
  rw [highByte, Nat.lor_comm, ← Nat.shiftLeft_add_eq_or_of_lt lowSmall, Nat.shiftLeft_eq,
    UInt8.toNat_ofNat', UInt8.toNat_ofNat']
  omega

/-- Four bytes that make a number. -/
theorem getLong_reads {number : Nat} (opened : s.insize = s.inputLen)
    (room : s.inptr + 4 ≤ s.inputLen) (bounded : number < 2 ^ 32)
    (spells : Spells s.inputData (8 * s.inptr) (numberBits 32 number)) :
    getLong.Ensures s (fun _ => False) fun value after =>
      value = number ∧ after = s.advance 4 := by
  have word : Memory.dword s.inputData s.inptr = number := by
    have parts : fieldAt s.inputData (8 * s.inptr) 32 =
        fieldAt s.inputData (8 * s.inptr) 8 +
          2 ^ 8 * (fieldAt s.inputData (8 * (s.inptr + 1)) 8 +
            2 ^ 8 * (fieldAt s.inputData (8 * (s.inptr + 2)) 8 +
              2 ^ 8 * fieldAt s.inputData (8 * (s.inptr + 3)) 8)) := by
      rw [show 32 = 8 + (8 + (8 + 8)) by rfl, fieldAt_add, fieldAt_add, fieldAt_add]
      rfl
    rw [spells.number bounded, fieldAt_byte, fieldAt_byte, fieldAt_byte, fieldAt_byte] at parts
    rw [parts, Memory.dword]
    omega
  unfold getLong
  apply (getByte_reads opened (by omega)).andThen
  rintro _ _ ⟨rfl, rfl⟩
  apply (getByte_reads (s := s.advance 1) opened
    (by rw [State.advance_inptr, State.advance_inputLen]; omega)).andThen
  rintro _ _ ⟨rfl, rfl⟩
  rw [State.advance_advance]
  apply (getByte_reads (s := s.advance 2) opened
    (by rw [State.advance_inptr, State.advance_inputLen]; omega)).andThen
  rintro _ _ ⟨rfl, rfl⟩
  rw [State.advance_advance]
  apply (getByte_reads (s := s.advance 3) opened
    (by rw [State.advance_inptr, State.advance_inputLen]; omega)).andThen
  rintro _ _ ⟨rfl, rfl⟩
  rw [State.advance_advance, ensures_pure, ← word]
  exact ⟨or_eq_dword s.inputData s.inptr, rfl⟩

/-- The input from its first byte on. -/
def State.opened (s : State) : State := { s with insize := s.inputLen, inptr := 0 }

/-- The fields before the flags, and the flags. -/
theorem gunzipFlags_reads (header : MemberHeader) (closed : s.insize = 0)
    (room : 4 ≤ s.inputLen)
    (spells : Spells s.inputData 0 ([0o37, header.magic, 8, header.flags].flatMap byteBits)) :
    gunzipFlags.Ensures s (fun _ => False) fun flags after =>
      flags = header.flags.toNat ∧ after = s.opened.advance 4 := by
  have bytes : ∀ k (inside : k < [0o37, header.magic, 8, header.flags].length),
      s.inputData (0 + k) = [0o37, header.magic, 8, header.flags][k] := spells_bytes.mp spells
  have first : s.inputData 0 = 0o37 := bytes 0 (by simp)
  have second : s.inputData 1 = header.magic := bytes 1 (by simp)
  have third : s.inputData 2 = 8 := bytes 2 (by simp)
  have fourth : s.inputData 3 = header.flags := bytes 3 (by simp)
  obtain ⟨encrypted, continuation, reserved⟩ := header.plain
  unfold gunzipFlags
  apply (getByte_first closed).andThen
  rintro _ s₁ ⟨rfl, same₁⟩
  have same₁ : s₁ = s.opened.advance 1 := same₁
  subst same₁
  apply (getByte_reads (s := s.opened.advance 1) rfl
    (Nat.lt_of_lt_of_le (by decide : 1 < 4) room)).andThen
  rintro _ _ ⟨rfl, rfl⟩
  rw [State.advance_advance]
  apply (getByte_reads (s := s.opened.advance 2) rfl
    (Nat.lt_of_lt_of_le (by decide : 2 < 4) room)).andThen
  rintro _ _ ⟨rfl, rfl⟩
  rw [State.advance_advance]
  have magic : ¬ (s.inputData 0 ≠ 0o37 ∨ (s.opened.advance 1).inputData (s.opened.advance 1).inptr ≠
      0o213 ∧ (s.opened.advance 1).inputData (s.opened.advance 1).inptr ≠ 0o236) := by
    have here : (s.opened.advance 1).inputData (s.opened.advance 1).inptr = header.magic := second
    rw [here, first]
    rintro (other | ⟨other, other'⟩)
    · exact other rfl
    · rcases header.known with known | known
      · exact other known
      · exact other' known
  have method : ¬ (s.opened.advance 2).inputData (s.opened.advance 2).inptr ≠ 8 :=
    not_not.mpr third
  rw [if_neg magic, if_neg method]
  apply (getByte_reads (s := s.opened.advance 3) rfl
    (Nat.lt_of_lt_of_le (by decide : 3 < 4) room)).andThen
  rintro _ _ ⟨rfl, rfl⟩
  have flags : (s.opened.advance 3).inputData (s.opened.advance 3).inptr = header.flags := fourth
  rw [flags, State.advance_advance, if_neg (not_not.mpr encrypted),
    if_neg (not_not.mpr continuation), if_neg (not_not.mpr reserved)]
  exact ⟨rfl, rfl⟩

/-- The extra field, if there is one. -/
theorem skipExtra_reads (header : MemberHeader) (opened : s.insize = s.inputLen)
    (room : s.inptr + (header.field extraFieldFlag (UInt8.ofNat header.extra.length ::
      UInt8.ofNat (header.extra.length / 2 ^ 8) :: header.extra)).length ≤ s.inputLen)
    (spells : Spells s.inputData (8 * s.inptr) ((header.field extraFieldFlag
      (UInt8.ofNat header.extra.length :: UInt8.ofNat (header.extra.length / 2 ^ 8) ::
        header.extra)).flatMap byteBits)) :
    (skipExtra header.flags.toNat).Ensures s (fun _ => False) fun _ after =>
      after = s.advance (header.field extraFieldFlag (UInt8.ofNat header.extra.length ::
        UInt8.ofNat (header.extra.length / 2 ^ 8) :: header.extra)).length := by
  unfold MemberHeader.field at *
  unfold skipExtra
  split
  · next set =>
    rw [if_pos set] at room spells
    have split : UInt8.ofNat header.extra.length :: UInt8.ofNat (header.extra.length / 2 ^ 8) ::
        header.extra = [UInt8.ofNat header.extra.length,
          UInt8.ofNat (header.extra.length / 2 ^ 8)] ++ header.extra := rfl
    rw [split, spells_bytes_append] at spells
    rw [split, List.length_append] at room ⊢
    have two : [UInt8.ofNat header.extra.length,
      UInt8.ofNat (header.extra.length / 2 ^ 8)].length = 2 := rfl
    rw [two] at room ⊢
    apply (getWord_reads opened (by omega) header.extraLength spells.1).andThen
    rintro _ _ ⟨rfl, rfl⟩
    apply (skipBytes_reads (s := s.advance 2) opened
      (by rw [State.advance_inptr, State.advance_inputLen]; omega)).mono (fun _ none => none)
    rintro _ after rfl
    rw [State.advance_advance]
  · exact rfl

/-- A string, if there is one. -/
theorem skipName_reads (header : MemberHeader) {flag fuel : Nat} {text : List Byte}
    (ends : 0 ∉ text) (opened : s.insize = s.inputLen)
    (room : s.inptr + (header.field flag (text ++ [0])).length ≤ s.inputLen)
    (spells : Spells s.inputData (8 * s.inptr)
      ((header.field flag (text ++ [0])).flatMap byteBits))
    (enough : s.inputLen < fuel) :
    (skipName fuel header.flags.toNat flag).Ensures s (fun _ => False) fun _ after =>
      after = s.advance (header.field flag (text ++ [0])).length := by
  unfold MemberHeader.field at *
  unfold skipName
  split
  · next set =>
    rw [if_pos set] at room spells
    rw [List.length_append, List.length_singleton] at room ⊢
    exact skipString_reads opened room spells ends (by omega)
  · exact rfl

/-- The whole header. -/
theorem gunzipFields_reads (header : MemberHeader) {fuel : Nat} (opened : s.insize = s.inputLen)
    (start : s.inptr = 4) (room : header.bytes.length ≤ s.inputLen)
    (spells : Spells s.inputData 0 (header.bytes.flatMap byteBits))
    (enough : s.inputLen < fuel) :
    (gunzipFields fuel header.flags.toNat).Ensures s (fun _ => False) fun _ after =>
      after = s.advance (header.bytes.length - 4) := by
  have spells : Spells s.inputData (8 * 0) (header.bytes.flatMap byteBits) := spells
  rw [MemberHeader.bytes, spells_bytes_append] at spells
  have four : [0o37, header.magic, 8, header.flags].length = 4 := rfl
  rw [four, Nat.zero_add, ← start] at spells
  obtain ⟨-, spells⟩ := spells
  rw [spells_bytes_append, spells_bytes_append, spells_bytes_append, header.stampLength] at spells
  obtain ⟨-, extra, name, comment⟩ := spells
  rw [MemberHeader.bytes, List.length_append, List.length_append, List.length_append,
    List.length_append, four, header.stampLength] at room ⊢
  have left := fun a b c d : Nat => Nat.add_sub_cancel_left (n := 4) (m := a + (b + (c + d)))
  rw [left]
  unfold gunzipFields
  apply (skipBytes_reads opened (by omega)).andThen
  rintro _ _ rfl
  apply (skipExtra_reads header (s := s.advance 6) opened
    (by rw [State.advance_inptr, State.advance_inputLen]; omega) extra).andThen
  rintro _ _ rfl
  rw [State.advance_advance]
  rw [Nat.add_assoc] at name
  apply (skipName_reads header header.nameEnds
    (s := s.advance (6 + (header.field extraFieldFlag (UInt8.ofNat header.extra.length ::
      UInt8.ofNat (header.extra.length / 2 ^ 8) :: header.extra)).length)) opened
    (by rw [State.advance_inptr, State.advance_inputLen]; omega) name enough).andThen
  rintro _ _ rfl
  rw [State.advance_advance]
  rw [Nat.add_assoc, Nat.add_assoc, ← Nat.add_assoc 6] at comment
  apply (skipName_reads header header.commentEnds (s := s.advance (6 + (header.field extraFieldFlag
    (UInt8.ofNat header.extra.length :: UInt8.ofNat (header.extra.length / 2 ^ 8) ::
      header.extra)).length + (header.field origNameFlag (header.name ++ [0])).length)) opened
    (by rw [State.advance_inptr, State.advance_inputLen]; omega) comment enough).mono
    (fun _ none => none)
  rintro _ after rfl
  rw [State.advance_advance]
  congr 1
  omega

end Header

/-! ## The whole member -/

-- A program is not run where its parts are compared.
attribute [local irreducible] Program.Ensures

section Members

variable {s : State} {fuel : Nat}

/-- `gunzip` writes the data of the member that the input begins with. -/
theorem gunzip_member (member : Member) (roomy : Roomy s) (table : TableMade s.crc32Tab)
    (crc : s.crc = 0xffffffff#32) (spells : Spells s.inputData 0 member.bits)
    (room : member.bits.length ≤ 8 * s.inputLen) (enough : 8 * s.inputLen + 259 ≤ fuel) :
    (gunzip fuel).Ensures s (fun _ => False) fun _ after =>
      after.output = member.data ∧ 8 * after.inptr = member.bits.length := by
  have headerLength : member.header.bytes.length = 4 + (6 + (member.header.bytes.length - 10)) := by
    rw [MemberHeader.bytes, List.length_append, List.length_append, member.header.stampLength]
    have four : [0o37, member.header.magic, 8, member.header.flags].length = 4 := rfl
    omega
  have boundary := member.boundary
  have total := member.length_bits
  rw [Member.bits, spells_append, spells_append, spells_append, spells_append,
    length_flatMap_byteBits, length_numberBits, Nat.zero_add] at spells
  obtain ⟨headerBits, blockBits, -, crcBits, lengthBits⟩ := spells
  unfold gunzip
  rw [ensures_bind, gzipReset, ensures_alter]
  generalize reset : ({ s with
    insize := 0, inptr := 0, outcnt := 0, bytesOut := 0, output := [] } : State) = s₀
  have input₀ : s₀.inputData = s.inputData := by rw [← reset]
  have inputLen₀ : s₀.inputLen = s.inputLen := by rw [← reset]
  have insize₀ : s₀.insize = 0 := by rw [← reset]
  have output₀ : s₀.output = [] := by rw [← reset]
  have roomy₀ : Roomy s₀ := by
    rw [← reset]
    exact ⟨roomy.aligned, roomy.positive, roomy.room⟩
  have opened₀ : Opened s.inputData s.inputLen s₀ := by
    rw [← reset]
    exact { inputData := rfl, inputLen := rfl, insize := rfl, inptr := rfl, table, crc
            output := rfl, bytesOut := rfl }
  have flagBits : Spells s₀.inputData 0
      ([0o37, member.header.magic, 8, member.header.flags].flatMap byteBits) := by
    have all : Spells s.inputData (8 * 0) (member.header.bytes.flatMap byteBits) := headerBits
    rw [MemberHeader.bytes, spells_bytes_append] at all
    rw [input₀]
    exact all.1
  have flagsRead := ((gunzipFlags_reads member.header insize₀ (by omega) flagBits).and
    (gunzipFlags_accounted opened₀)).mono (fun _ none => none.1) fun _ _ both => both
  apply flagsRead.andThen
  rintro _ _ ⟨⟨rfl, rfl⟩, accounted₁⟩
  have inputData₁ : (s₀.opened.advance 4).inputData = s.inputData := input₀
  have inputLen₁ : (s₀.opened.advance 4).inputLen = s.inputLen := inputLen₀
  have output₁ : (s₀.opened.advance 4).output = [] := output₀
  have opened₁ : (s₀.opened.advance 4).insize = (s₀.opened.advance 4).inputLen := rfl
  have inptr₁ : (s₀.opened.advance 4).inptr = 4 := rfl
  have roomy₁ : Roomy (s₀.opened.advance 4) := ⟨roomy₀.aligned, roomy₀.positive, roomy₀.room⟩
  generalize s₀.opened.advance 4 = s₁ at *
  apply ((gunzipFields_reads member.header opened₁ inptr₁ (by omega)
    (by rw [inputData₁]; exact headerBits) (by omega)).withStable
    (stable_gunzipFields fuel _) accounted₁).andThen
  rintro _ _ ⟨rfl, accounted₂⟩
  have inptr₂ : (s₁.advance (member.header.bytes.length - 4)).inptr =
      member.header.bytes.length := by
    rw [State.advance_inptr, inptr₁]
    omega
  apply ((inflate_blocks (s := s₁.advance (member.header.bytes.length - 4)) opened₁ output₁
    ⟨roomy₁.aligned, roomy₁.positive, roomy₁.room⟩ member.some (by rw [inptr₂]; exact member.fit)
    (by rw [inptr₂, State.advance_inputData, inputData₁]; exact blockBits)
    (by rw [inptr₂, State.advance_inputLen, inputLen₁]; omega)
    (by rw [State.advance_inputLen, inputLen₁]; exact enough)).withStable
    (stable_inflate fuel) accounted₂).andThen
  rintro result s₃ ⟨⟨rfl, output₃, inptr₃, passed₃⟩, accounted₃⟩
  rw [inptr₂] at inptr₃
  have padded := member.short
  have place : 8 * s₃.inptr = 8 * member.header.bytes.length +
      (blocksBits member.blocks).length + member.padding.length := by omega
  have opened₃ : s₃.insize = s₃.inputLen := by rw [accounted₃.insize, accounted₃.inputLen]
  have inputLen₃ := accounted₃.inputLen
  have crcBound : member.crc < 2 ^ 32 := BitVec.isLt _
  have lengthBound : member.data.length % 2 ^ 32 < 2 ^ 32 := Nat.mod_lt _ (Nat.two_pow_pos 32)
  rw [if_neg (not_not.mpr rfl)]
  apply (getLong_reads opened₃ (by omega) crcBound
    (by rw [accounted₃.inputData, place]; exact crcBits)).andThen
  rintro _ _ ⟨rfl, rfl⟩
  have place' : 8 * (s₃.advance 4).inptr = 8 * member.header.bytes.length +
      (blocksBits member.blocks).length + member.padding.length + 32 := by
    rw [State.advance_inptr]
    omega
  apply (getLong_reads (s := s₃.advance 4) opened₃
    (by rw [State.advance_inptr, State.advance_inputLen]; omega) lengthBound
    (by rw [place', State.advance_inputData, accounted₃.inputData]; exact lengthBits)).andThen
  rintro _ _ ⟨rfl, rfl⟩
  rw [State.advance_advance]
  have crc₃ : ((s₃.advance (4 + 4)).crc ^^^ 0xffffffff#32).toNat = member.crc := by
    have code : (s₃.advance (4 + 4)).crc = crcOf s₃.output := accounted₃.crc
    rw [code, output₃]
    rfl
  have bytes₃ : (s₃.advance (4 + 4)).bytesOut = member.data.length % 2 ^ 32 := by
    have count : (s₃.advance (4 + 4)).bytesOut = s₃.output.length % 2 ^ 32 := accounted₃.bytesOut
    rw [count, output₃]
    rfl
  rw [crcValue, ensures_bind, ensures_look, crc₃, if_neg (not_not.mpr rfl), ensures_bind,
    ensures_look, bytes₃, if_neg (not_not.mpr rfl), ensures_pure]
  refine ⟨output₃, ?_⟩
  rw [State.advance_inptr]
  omega

theorem decompressKernel_writes (member : Member) {fuel : Nat}
    (spells : Spells s.inputData 0 member.bits) (room : member.bits.length ≤ 8 * s.inputLen)
    (enough : 8 * s.inputLen + 259 ≤ fuel) :
    (decompressKernel fuel).Ensures s (fun _ => False) fun _ after =>
      after.output = member.data ∧ 8 * after.inptr = member.bits.length := by
  unfold decompressKernel makecrc
  rw [ensures_bind, ensures_alter, ensures_bind, ensures_alter]
  refine gunzip_member member ⟨?_, ?_, ?_⟩ (fun i small => makecrc_entry small) rfl spells room
    enough
  · exact (by decide : 0x01000000 % 4 = 0)
  · exact (by decide : 0 < 0x01000000)
  · exact (by decide : 0x01000000 + 3 * buildBytes < 0x02000000)

/-- `decompress_kernel` returns with the data of the member that the input begins with, and
has read no further. -/
theorem decompressKernel_member (member : Member) (s : State) (fuel : Nat)
    (spells : Spells s.inputData 0 member.bits) (room : member.bits.length ≤ 8 * s.inputLen)
    (enough : 8 * s.inputLen + 259 ≤ fuel) :
    ∃ after, decompressKernel fuel s = .leave ((), after) ∧ after.output = member.data ∧
      8 * after.inptr = member.bits.length := by
  obtain ⟨_, after, run, output⟩ := (decompressKernel_writes member spells room enough).returns
  exact ⟨after, run, output⟩

/-- Four equal letters: one of them, and a copy of three bytes from one back. -/
def fourLetters : Member where
  header :=
    { magic := 0o213, flags := 0, stamp := [0, 0, 0, 0, 0, 3], extra := [], name := []
      comment := [], known := .inl rfl, plain := by decide, stampLength := rfl
      extraLength := by decide, nameEnds := by decide, commentEnds := by decide }
  blocks := [.fixed [.literal 0x61,
    .copied { length := 0, lengthExtra := ⟨0, by decide⟩, distance := 0
              distanceExtra := ⟨0, by decide⟩ }]]
  padding := [false, false]
  some := List.cons_ne_nil _ _
  fit := by
    refine ⟨⟨⟨trivial, Nat.le_refl 1, trivial⟩, ?_⟩, trivial⟩
    intro token member
    rcases List.mem_cons.mp member with rfl | later
    · exact (by decide : fixedLengths.getD 0x61 0 ≠ 0)
    · rw [List.mem_singleton.mp later]
      exact ⟨by decide, by decide⟩
  short := by decide
  boundary := by decide

theorem room_fourLetters : fourLetters.bits.length ≤ 8 * 64 := by
  rw [Member.length_bits]
  decide

theorem writes_fourLetters (window : Memory) : ∃ after,
    decompressKernel 800 (handedOver (packed fourLetters.bits) 64 window) = .leave ((), after) ∧
      after.output = fourLetters.data ∧ 8 * after.inptr = fourLetters.bits.length := by
  have enough : 8 * 64 + 259 ≤ 800 := by decide
  obtain ⟨_, after, run, wrote⟩ :=
    (decompressKernel_writes (s := handedOver (packed fourLetters.bits) 64 window) fourLetters
      (spells_packed _) room_fourLetters enough).returns
  exact ⟨after, run, wrote⟩

theorem decompressKernel_fourLetters : ∃ after,
    decompressKernel 800 (handedOver (packed fourLetters.bits) 64 fun _ => 7) =
      .leave ((), after) ∧ after.output = [0x61, 0x61, 0x61, 0x61] := by
  obtain ⟨after, run, output, -⟩ := decompressKernel_member fourLetters
    (handedOver (packed fourLetters.bits) 64 fun _ => 7) 800 (spells_packed _) room_fourLetters
    (by decide)
  exact ⟨after, run, output.trans (by decide)⟩

/-! ## What a run that returns has written -/

/-- `decompress_kernel` returns only if the code and the length of everything it has written
are those in the last eight bytes it read. -/
theorem decompressKernel_checked {fuel : Nat} {after : State}
    (run : decompressKernel fuel s = .leave ((), after)) :
    8 ≤ after.inptr ∧ after.inptr ≤ s.inputLen ∧
      (crcOf after.output ^^^ 0xffffffff#32).toNat =
        Memory.dword s.inputData (after.inptr - 8) ∧
      after.output.length % 2 ^ 32 = Memory.dword s.inputData (after.inptr - 4) := by
  obtain ⟨accounted, room, crc, length⟩ := (decompressKernel_accounted fuel).of_returned run
  exact ⟨room, accounted.inptr, crc, length⟩

theorem decompressKernel_checked_fourLetters :
    ∃ after : State,
      decompressKernel 800 (handedOver (packed fourLetters.bits) 64 fun _ => 0) =
        .leave ((), after) ∧
      8 ≤ after.inptr ∧ after.inptr ≤ 64 ∧
      (crcOf after.output ^^^ 0xffffffff#32).toNat =
        Memory.dword (packed fourLetters.bits) (after.inptr - 8) ∧
      after.output.length % 2 ^ 32 =
        Memory.dword (packed fourLetters.bits) (after.inptr - 4) := by
  obtain ⟨after, run, -⟩ := writes_fourLetters fun _ => 0
  exact ⟨after, run, decompressKernel_checked run⟩

/-- Two runs that return with the same code in their trailers have not written data that
differ in a single burst of at most 32 bits: such damage is never passed on. -/
theorem decompressKernel_detects {s' : State} {fuel fuel' : Nat} {after after' : State}
    {common first second rest : List Bool} (run : decompressKernel fuel s = .leave ((), after))
    (run' : decompressKernel fuel' s' = .leave ((), after'))
    (trailer : Memory.dword s.inputData (after.inptr - 8) =
      Memory.dword s'.inputData (after'.inptr - 8))
    (bits : after.output.flatMap byteBits = common ++ first ++ rest)
    (bits' : after'.output.flatMap byteBits = common ++ second ++ rest)
    (lengths : first.length = second.length) (burst : first.length ≤ 32) :
    after.output = after'.output := by
  obtain ⟨-, -, crc, -⟩ := (decompressKernel_accounted fuel).of_returned run
  obtain ⟨-, -, crc', -⟩ := (decompressKernel_accounted fuel').of_returned run'
  have registers : crcOf after.output = crcOf after'.output := by
    have same : crcOf after.output ^^^ 0xffffffff#32 = crcOf after'.output ^^^ 0xffffffff#32 := by
      apply BitVec.eq_of_toNat_eq
      rw [crc, crc', trailer]
    have undone := congrArg (fun register => register ^^^ 0xffffffff#32) same
    simpa only [BitVec.xor_assoc, BitVec.xor_self, BitVec.xor_zero] using undone
  rw [crcOf, crcOf, bits, bits'] at registers
  have equal := crcBits_detects (by decide) (by decide) lengths burst registers
  apply flatMap_byteBits_inj
  rw [bits, bits', equal]

/-- The same member in two windows is unpacked alike; with the second letter changed, its
trailer would not have been accepted. -/
theorem decompressKernel_detects_fourLetters : ∃ after after' : State,
    decompressKernel 800 (handedOver (packed fourLetters.bits) 64 fun _ => 0) =
      .leave ((), after) ∧
    decompressKernel 800 (handedOver (packed fourLetters.bits) 64 fun _ => 7) =
      .leave ((), after') ∧ after.output = after'.output ∧
    ∀ (fuel : Nat) (s damaged : State), decompressKernel fuel s = .leave ((), damaged) →
      Memory.dword (packed fourLetters.bits) (after.inptr - 8) =
        Memory.dword s.inputData (damaged.inptr - 8) →
      damaged.output ≠ [0x61, 0x62, 0x61, 0x61] := by
  obtain ⟨after, run, output, place⟩ := writes_fourLetters fun _ => 0
  obtain ⟨after', run', output', place'⟩ := writes_fourLetters fun _ => 7
  have trailer : Memory.dword (packed fourLetters.bits) (after.inptr - 8) =
      Memory.dword (packed fourLetters.bits) (after'.inptr - 8) := by
    rw [show after.inptr = after'.inptr by omega]
  have data : fourLetters.data = [0x61, 0x61, 0x61, 0x61] := by decide
  rw [data] at output output'
  refine ⟨after, after', run, run', ?_, ?_⟩
  · have whole : after.output.flatMap byteBits =
        [] ++ [0x61, 0x61, 0x61, 0x61].flatMap byteBits ++ [] := by
      rw [output, List.nil_append, List.append_nil]
    have whole' : after'.output.flatMap byteBits =
        [] ++ [0x61, 0x61, 0x61, 0x61].flatMap byteBits ++ [] := by
      rw [output', List.nil_append, List.append_nil]
    exact decompressKernel_detects run run' trailer whole whole' rfl (by decide)
  · intro fuel s damaged returned same changed
    have letters : after.output.flatMap byteBits =
        byteBits 0x61 ++ byteBits 0x61 ++ [0x61, 0x61].flatMap byteBits := by
      rw [output]
      rfl
    have changed' : damaged.output.flatMap byteBits =
        byteBits 0x61 ++ byteBits 0x62 ++ [0x61, 0x61].flatMap byteBits := by
      rw [changed]
      rfl
    have equal := decompressKernel_detects run returned same letters changed' rfl (by decide)
    rw [output, changed] at equal
    exact absurd equal (by decide)

end Members

end Cromwell.Gzip
