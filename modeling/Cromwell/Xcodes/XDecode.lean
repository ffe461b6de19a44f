import Cromwell.Xcodes.Assembler

/-!
# The xcode decompiler

`xdecode` prints the xcodes of a BIOS image one a line, as macro calls where the opcode is
known and as directives where it is not. A jump distance is turned back by an unsigned
division.
-/

namespace Cromwell.Xcodes

open Cromwell.Std

def xcodeStartOffset : Nat := 0x80
def maxXcodes : Nat := 1500
def xcodeLength : Nat := 9

/-! ## Lines -/

/-- `0x%08x`. -/
def x08 (value : UInt32) : List Char := '0' :: 'x' :: hexText 8 value.toNat

/-- `0x%02x`. -/
def x02 (value : Byte) : List Char := '0' :: 'x' :: hexText 2 value.toNat

/-- The line that is printed for an xcode. -/
def xcodeLine (code : Xcode) : List Char :=
  match code.op with
  | 0x02 => "xcode_peek(".toList ++ x08 code.val1 ++ ")".toList
  | 0x03 => "xcode_poke(".toList ++ x08 code.val1 ++ ",".toList ++ x08 code.val2 ++ ")".toList
  | 0x04 => "xcode_pciout(".toList ++ x08 code.val1 ++ ", ".toList ++ x08 code.val2 ++ ")".toList
  | 0x05 => "xcode_pciin_a(".toList ++ x08 code.val1 ++ ")".toList
  | 0x06 =>
    "xcode_bittoggle(".toList ++ x08 code.val1 ++ ", ".toList ++ x08 code.val2 ++ ")".toList
  | 0x08 =>
    "xcode_ifgoto(".toList ++ x08 code.val1 ++ ", ".toList ++ x08 (code.val2 / 9 + 1) ++ ")".toList
  | 0x11 => "xcode_outb(".toList ++ x08 code.val1 ++ ", ".toList ++ x08 code.val2 ++ ")".toList
  | 0x12 => "xcode_inb(".toList ++ x08 code.val1 ++ ")".toList
  | 0x07 =>
    match code.val1 with
    | 0x03 => "xcode_poke_a(".toList ++ x08 code.val2 ++ ")".toList
    | 0x04 => "xcode_pciout_a(".toList ++ x08 code.val2 ++ ")".toList
    | 0x11 => "xcode_outb_a(".toList ++ x08 code.val2 ++ ")".toList
    | _ => "Invalid 0x07 code".toList
  | 0x09 => "xcode_goto(".toList ++ decimalText (code.val2 / 9 + 1).toInt32.toInt ++ ")".toList
  | 0xEE => "xcode_END(".toList ++ x08 code.val1 ++ ")".toList
  | _ => ".byte ".toList ++ x02 code.op ++ "; .long ".toList ++ x08 code.val1 ++
      "; .long ".toList ++ x08 code.val2 ++ ";".toList

/-- The lines that are inserted in front of the end when they are asked for. -/
def overflowTrick : List (List Char) :=
  ["/* Overflow Trick */\t\t\t      ".toList,
    "xcode_poke(0x00000000, 0xfc1000ea);\t\t\t      ".toList,
    "xcode_poke(0x00000004, 0x000008ff);".toList]

/-! ## The image -/

/-- The record of that number in a segment of xcodes. -/
def xcodeAt (segment : Memory) (xcodeIndex : Nat) : Xcode where
  op := segment (xcodeLength * xcodeIndex)
  val1 := UInt32.ofNat (segment.dword (xcodeLength * xcodeIndex + 1))
  val2 := UInt32.ofNat (segment.dword (xcodeLength * xcodeIndex + 5))

/-- The segment as it is read from a file. Behind the end of the file the buffer is as it
was allocated. -/
def xcodeSegment (image : List Byte) (allocated : Memory) : Memory := fun i =>
  if i < maxXcodes * xcodeLength then image.getD (xcodeStartOffset + i) (allocated i)
  else allocated i

/-- The loop over the segment, with what is left of its bound: the lines printed, and the
value returned. -/
def decompile (insertOverflowTrick : Bool) (segment : Memory) :
    (count xcodeIndex : Nat) → List (List Char) × Int32
  | 0, _ => ([], 1)
  | count + 1, xcodeIndex =>
    let code := xcodeAt segment xcodeIndex
    if code.op = 0xEE then
      ((if insertOverflowTrick then overflowTrick else []) ++ [xcodeLine code], 0)
    else
      let (lines, result) := decompile insertOverflowTrick segment count (xcodeIndex + 1)
      (xcodeLine code :: lines, result)

/-- `process_xcodes` of a file that can be opened. -/
def processXcodes (insertOverflowTrick : Bool) (image : List Byte) (allocated : Memory) :
    List (List Char) × Int32 :=
  decompile insertOverflowTrick (xcodeSegment image allocated) maxXcodes 0

/-! ## What the lines assemble to -/

theorem notMem_prefixed {width value : Nat} {c : Char} (other : hexDigit c = none)
    (notPrefix : c ≠ 'x') : c ∉ '0' :: 'x' :: hexText width value := by
  intro member
  rcases List.mem_cons.mp member with rfl | member
  · exact absurd other (by decide)
  · rcases List.mem_cons.mp member with rfl | member
    · exact notPrefix rfl
    · exact notMem_hexText other member

theorem ofInt_toNat (value : UInt32) : UInt32.ofInt (value.toNat : Int) = value := by
  have bound := value.toNat_lt
  apply UInt32.toNat_inj.mp
  rw [UInt32.ofInt, UInt32.toNat_ofNat']
  omega

theorem skipSpaces_of_notMem {line : List Char} (absent : ' ' ∉ line) : skipSpaces line = line := by
  cases line with
  | nil => rfl
  | cons c rest =>
      have other : c ≠ ' ' := fun same => absent (same ▸ List.mem_cons_self)
      exact List.dropWhile_cons_of_neg (by simpa using other)

theorem operand_x08 (value : UInt32) : operand (x08 value) = some value := by
  have read : readInteger (x08 value) = some (value.toNat : Int) :=
    readInteger_hexText value.toNat_lt
  have skipped : skipSpaces (x08 value) = x08 value := rfl
  rw [operand, skipped, read, Option.map_some, ofInt_toNat]

/-- A call whose arguments contain no parentheses. -/
theorem assembleCall_eq (name : String) {arguments : List Char} (plain : '(' ∉ name.toList)
    (flat : '(' ∉ arguments) (closed : ')' ∉ arguments) :
    assembleCall (name.toList ++ '(' :: (arguments ++ [')'])) =
      ((arguments.splitOn ',').mapM operand).bind fun values =>
        (expand name values).map Xcode.bytes := by
  have one : '(' ∉ arguments ++ [')'] := by simp [flat]
  have inner : (arguments ++ [')']).splitOn ')' = [arguments, []] := by
    rw [splitOn_append_cons closed]
    rfl
  unfold assembleCall
  rw [splitOn_append_cons plain, splitOn_of_notMem one]
  dsimp only
  rw [inner]
  dsimp only
  rw [String.ofList_toList]

/-- A call with one argument. -/
theorem assembleCall_one (name : String) {argument : List Char} {value : UInt32}
    (plain : '(' ∉ name.toList) (absent : ∀ c ∈ ['(', ')', ','], c ∉ argument)
    (read : operand argument = some value) :
    assembleCall (name.toList ++ '(' :: (argument ++ [')'])) =
      (expand name [value]).map Xcode.bytes := by
  rw [assembleCall_eq name plain (absent '(' (by simp)) (absent ')' (by simp)),
    splitOn_of_notMem (absent ',' (by simp))]
  simp [read]

theorem assembleCall_x08 (name : String) (value : UInt32) (plain : '(' ∉ name.toList) :
    assembleCall (name.toList ++ '(' :: (x08 value ++ [')'])) =
      (expand name [value]).map Xcode.bytes := by
  have others : ∀ c ∈ ['(', ')', ','], hexDigit c = none ∧ c ≠ 'x' := by decide
  exact assembleCall_one name plain
    (fun c member => notMem_prefixed (others c member).1 (others c member).2) (operand_x08 value)

/-- A call with two arguments. -/
theorem assembleCall_two (name : String) (spaces : List Char) (val1 val2 : UInt32)
    (plain : '(' ∉ name.toList) (blank : ∀ c ∈ spaces, c = ' ') :
    assembleCall (name.toList ++ '(' :: (x08 val1 ++ ',' :: (spaces ++ x08 val2) ++ [')'])) =
      (expand name [val1, val2]).map Xcode.bytes := by
  have absent {c : Char} (other : hexDigit c = none) (notPrefix : c ≠ 'x') (notComma : c ≠ ',')
      (notSpace : c ≠ ' ') : c ∉ x08 val1 ++ ',' :: (spaces ++ x08 val2) := by
    simp only [List.mem_append, List.mem_cons, not_or]
    exact ⟨notMem_prefixed other notPrefix, notComma, fun member => notSpace (blank c member),
      notMem_prefixed other notPrefix⟩
  have second : ',' ∉ spaces ++ x08 val2 := by
    simp only [List.mem_append, not_or]
    exact ⟨fun member => absurd (blank ',' member) (by decide), notMem_prefixed rfl (by decide)⟩
  have skipped : operand (spaces ++ x08 val2) = some val2 := by
    have same : skipSpaces (spaces ++ x08 val2) = skipSpaces (x08 val2) := by
      unfold skipSpaces
      rw [List.dropWhile_append_of_pos fun c member => by simp [blank c member]]
    rw [operand, same]
    exact operand_x08 val2
  have first : ',' ∉ x08 val1 := notMem_prefixed rfl (by decide)
  rw [assembleCall_eq name plain (absent rfl (by decide) (by decide) (by decide))
      (absent rfl (by decide) (by decide) (by decide)),
    splitOn_append_cons first, splitOn_of_notMem second]
  simp [operand_x08, skipped]

/-- A call with a decimal argument. -/
theorem assembleCall_decimal (name : String) {value : UInt32} (plain : '(' ∉ name.toList)
    (positive : 0 < value.toNat) (bounded : value.toNat < 2 ^ 31) :
    assembleCall (name.toList ++ '(' :: (decimalText value.toInt32.toInt ++ [')'])) =
      (expand name [value]).map Xcode.bytes := by
  have signed : value.toInt32.toInt = (value.toNat : Int) :=
    BitVec.toInt_eq_toNat_of_lt (by change 2 * value.toNat < 2 ^ 32; omega)
  have digits : ∀ c ∈ Nat.toDigits 10 value.toNat, c.isDigit := fun c member =>
    Nat.isDigit_of_mem_toDigits (by decide) (by decide) member
  have absent {c : Char} (other : c.isDigit = false) : c ∉ Nat.toDigits 10 value.toNat := by
    intro member
    have digit := digits c member
    rw [other] at digit
    cases digit
  have others : ∀ c ∈ ['(', ')', ','], c.isDigit = false := by decide
  rw [signed]
  refine assembleCall_one name plain (fun c separator => absent (others c separator)) ?_
  · have skipped : skipSpaces (decimalText (value.toNat : Int)) = decimalText (value.toNat : Int) :=
      skipSpaces_of_notMem (absent rfl)
    rw [operand, skipped, readInteger_decimalText positive, Option.map_some, ofInt_toNat]

/-- The target of a jump does not overflow. -/
theorem toNat_target (val2 : UInt32) : (val2 / 9 + 1).toNat = val2.toNat / 9 + 1 := by
  have bound := val2.toNat_lt
  have quotient : (val2 / 9).toNat = val2.toNat / 9 := UInt32.toNat_div val2 9
  rw [UInt32.toNat_add, quotient]
  change (val2.toNat / 9 + 1) % 2 ^ 32 = _
  omega

/-! ## Directives -/

theorem assembleStatement_eq {statement argument : List Char} (directive : String) {value : UInt32}
    (first : skipSpaces statement = directive.toList ++ ' ' :: argument)
    (plain : ' ' ∉ directive.toList) (one : ' ' ∉ argument) (read : operand argument = some value) :
    assembleStatement statement = directiveBytes directive value := by
  unfold assembleStatement
  rw [first, splitOn_append_cons plain, splitOn_of_notMem one]
  split
  next same => exact absurd (congrArg List.length same) (by simp)
  next same =>
    obtain ⟨rfl, rest⟩ := List.cons.inj same
    obtain ⟨rfl, -⟩ := List.cons.inj rest
    rw [read, String.ofList_toList]
    rfl
  next other => exact absurd rfl (other _ _)

theorem assembleStatement_long (value : UInt32) :
    assembleStatement (" .long ".toList ++ x08 value) = some (dwordBytes value.toNat) :=
  assembleStatement_eq ".long" rfl (by decide) (notMem_prefixed rfl (by decide)) (operand_x08 value)

theorem operand_x02 (value : Byte) : operand (x02 value) = some value.toUInt32 := by
  have read : readInteger (x02 value) = some (value.toNat : Int) :=
    readInteger_hexText value.toNat_lt
  have skipped : skipSpaces (x02 value) = x02 value := rfl
  rw [operand, skipped, read, Option.map_some]
  exact congrArg some (ofInt_toNat value.toUInt32)

theorem assembleStatement_byte (value : Byte) :
    assembleStatement (".byte ".toList ++ x02 value) = some [value] := by
  rw [assembleStatement_eq ".byte" rfl (by decide) (notMem_prefixed rfl (by decide))
    (operand_x02 value)]
  simp [directiveBytes]

/-- A line of directives stores the record it shows. -/
theorem assemble_directives (op : Byte) (val1 val2 : UInt32) :
    assemble (".byte ".toList ++ x02 op ++ "; .long ".toList ++ x08 val1 ++
      "; .long ".toList ++ x08 val2 ++ ";".toList) = some (Xcode.bytes ⟨op, val1, val2⟩) := by
  have shape : ".byte ".toList ++ x02 op ++ "; .long ".toList ++ x08 val1 ++
      "; .long ".toList ++ x08 val2 ++ ";".toList =
        (".byte ".toList ++ x02 op) ++ ';' :: ((" .long ".toList ++ x08 val1) ++
          ';' :: ((" .long ".toList ++ x08 val2) ++ ';' :: [])) := by
    simp
  have apart {c : Char} {front : List Char} {width value : Nat} (plain : c ∉ front)
      (other : hexDigit c = none) (notPrefix : c ≠ 'x') :
      c ∉ front ++ '0' :: 'x' :: hexText width value := by
    simp only [List.mem_append, not_or]
    exact ⟨plain, notMem_prefixed other notPrefix⟩
  have first : ';' ∉ ".byte ".toList ++ x02 op := apart (by decide) rfl (by decide)
  have later (value : UInt32) : ';' ∉ " .long ".toList ++ x08 value :=
    apart (by decide) rfl (by decide)
  have noCall : assembleCall
      ((".byte ".toList ++ x02 op) ++ ';' :: ((" .long ".toList ++ x08 val1) ++
      ';' :: ((" .long ".toList ++ x08 val2) ++ ';' :: []))) = none := by
    have absent : '(' ∉ (".byte ".toList ++ x02 op) ++ ';' :: ((" .long ".toList ++ x08 val1) ++
        ';' :: ((" .long ".toList ++ x08 val2) ++ ';' :: [])) := by
      have opened (value : UInt32) : '(' ∉ " .long ".toList ++ x08 value :=
        apart (by decide) rfl (by decide)
      intro member
      rcases List.mem_append.mp member with byte | member
      · exact apart (by decide) rfl (by decide) byte
      · rcases List.mem_append.mp (List.mem_of_ne_of_mem (by decide) member) with long | member
        · exact opened val1 long
        · rcases List.mem_append.mp (List.mem_of_ne_of_mem (by decide) member) with long | member
          · exact opened val2 long
          · exact absurd member (by decide)
    rw [assembleCall, splitOn_of_notMem absent]
  rw [shape, assemble, noCall, Option.none_or, assembleStatements, splitOn_append_cons first,
    splitOn_append_cons (later val1), splitOn_append_cons (later val2)]
  have last : assembleStatement [] = some [] := rfl
  have statements : [".byte ".toList ++ x02 op, " .long ".toList ++ x08 val1,
      " .long ".toList ++ x08 val2, []].mapM assembleStatement =
        some [[op], dwordBytes val1.toNat, dwordBytes val2.toNat, []] := by
    simp only [List.mapM_cons, List.mapM_nil, assembleStatement_byte, assembleStatement_long, last]
    rfl
  change Option.map List.flatten ([".byte ".toList ++ x02 op, " .long ".toList ++ x08 val1,
      " .long ".toList ++ x08 val2, []].mapM assembleStatement) = _
  rw [statements]
  simp [Xcode.bytes]

/-! ## Every line -/

/-- The record a printed line stands for. -/
def reassembled (code : Xcode) : Option Xcode :=
  match code.op with
  | 0x02 => some (xcodePeek code.val1)
  | 0x05 => some (xcodePciinA code.val1)
  | 0x08 => some (xcodeIfgoto code.val1 (code.val2 / 9 + 1))
  | 0x12 => some (xcodeInb code.val1)
  | 0x07 => if code.val1 = 0x03 ∨ code.val1 = 0x04 ∨ code.val1 = 0x11 then some code else none
  | 0x09 => some (xcodeGoto (code.val2 / 9 + 1))
  | 0xEE => some (xcodeEnd code.val1)
  | _ => some code

theorem assemble_of_call {line : List Char} {code : Xcode}
    (call : assembleCall line = some code.bytes) :
    assemble line = (some code).map Xcode.bytes := by
  rw [assemble, call]
  rfl

theorem assemble_xcodeLine (code : Xcode) :
    assemble (xcodeLine code) = (reassembled code).map Xcode.bytes := by
  obtain ⟨op, val1, val2⟩ := code
  unfold xcodeLine reassembled
  dsimp only
  split
  · exact assemble_of_call (assembleCall_x08 "xcode_peek" val1 (by decide))
  · exact assemble_of_call (assembleCall_two "xcode_poke" [] val1 val2 (by decide) (by simp))
  · exact assemble_of_call (assembleCall_two "xcode_pciout" [' '] val1 val2 (by decide) (by simp))
  · exact assemble_of_call (assembleCall_x08 "xcode_pciin_a" val1 (by decide))
  · exact assemble_of_call
      (assembleCall_two "xcode_bittoggle" [' '] val1 val2 (by decide) (by simp))
  · exact assemble_of_call
      (assembleCall_two "xcode_ifgoto" [' '] val1 (val2 / 9 + 1) (by decide) (by simp))
  · exact assemble_of_call (assembleCall_two "xcode_outb" [' '] val1 val2 (by decide) (by simp))
  · exact assemble_of_call (assembleCall_x08 "xcode_inb" val1 (by decide))
  · split
    · exact assemble_of_call (assembleCall_x08 "xcode_poke_a" val2 (by decide))
    · exact assemble_of_call (assembleCall_x08 "xcode_pciout_a" val2 (by decide))
    · exact assemble_of_call (assembleCall_x08 "xcode_outb_a" val2 (by decide))
    next notPoke notPciout notOutb =>
      have invalid : ¬(val1 = 0x03 ∨ val1 = 0x04 ∨ val1 = 0x11) := by
        rintro (poke | pciout | outb)
        · exact notPoke poke
        · exact notPciout pciout
        · exact notOutb outb
      rw [if_neg invalid]
      exact (by decide : assemble "Invalid 0x07 code".toList = none)
  · exact assemble_of_call
      (assembleCall_decimal "xcode_goto" (by decide) (by rw [toNat_target]; omega)
        (by rw [toNat_target]; have bound := val2.toNat_lt; omega))
  · exact assemble_of_call (assembleCall_x08 "xcode_END" val1 (by decide))
  next notPeek _ _ notPciin _ notIfgoto _ notInb notSub notGoto notEnd =>
    rw [assemble_directives]
    split
    · exact absurd rfl notPeek
    · exact absurd rfl notPciin
    · exact absurd rfl notIfgoto
    · exact absurd rfl notInb
    · exact absurd rfl notSub
    · exact absurd rfl notGoto
    · exact absurd rfl notEnd
    · rfl

end Cromwell.Xcodes
