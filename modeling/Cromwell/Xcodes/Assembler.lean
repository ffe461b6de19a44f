import Cromwell.Std.Memory
import Cromwell.Std.Numerals

/-!
# The xcode macros

An xcode is an opcode with two operands, nine bytes in all. The macros of the startup code
expand to such records; a macro that has no use for an operand stores 0 or a second opcode
there, and the jumps store a distance in bytes. `assemble` takes a line as the preprocessor
and the assembler do: a macro call, or directives.
-/

namespace Cromwell.Xcodes

open Cromwell.Std

/-- An `xcode`. -/
structure Xcode where
  op : Byte
  val1 : UInt32
  val2 : UInt32
  deriving Repr, DecidableEq

/-- `.byte op; .long val1; .long val2`. -/
def Xcode.bytes (code : Xcode) : List Byte :=
  code.op :: (dwordBytes code.val1.toNat ++ dwordBytes code.val2.toNat)

/-- Nine bytes are one code only. -/
theorem Xcode.bytes_injective {first second : Xcode} (same : first.bytes = second.bytes) :
    first = second := by
  have word {a b : UInt32} (equal : dwordBytes a.toNat = dwordBytes b.toNat) : a = b := by
    have read := congrArg (fun bytes => (Memory.store (fun _ => 0) 0 bytes).dword 0) equal
    rw [Memory.dword_store _ _ a.toNat_lt, Memory.dword_store _ _ b.toNat_lt] at read
    exact UInt32.toNat_inj.mp read
  obtain ⟨op, rest⟩ := List.cons.inj same
  obtain ⟨val1, val2⟩ := List.append_inj rest rfl
  cases first
  cases second
  simp only [Xcode.mk.injEq]
  exact ⟨op, word val1, word val2⟩

/-! ## The macros -/

def xcodePeek (val1 : UInt32) : Xcode := ⟨0x2, val1, 0x0⟩
def xcodePoke (val1 val2 : UInt32) : Xcode := ⟨0x3, val1, val2⟩
def xcodePciout (val1 val2 : UInt32) : Xcode := ⟨0x4, val1, val2⟩
def xcodePciinA (val1 : UInt32) : Xcode := ⟨0x5, val1, 0x0⟩
def xcodeBittoggle (val1 val2 : UInt32) : Xcode := ⟨0x6, val1, val2⟩
def xcodeIfgoto (val1 val2 : UInt32) : Xcode := ⟨0x8, val1, 9 * (val2 - 1)⟩
def xcodeOutb (val1 val2 : UInt32) : Xcode := ⟨0x11, val1, val2⟩
def xcodeInb (val1 : UInt32) : Xcode := ⟨0x12, val1, 0x0⟩
def xcodePokeA (val1 : UInt32) : Xcode := ⟨0x7, 0x3, val1⟩
def xcodePcioutA (val1 : UInt32) : Xcode := ⟨0x7, 0x4, val1⟩
def xcodeOutbA (val1 : UInt32) : Xcode := ⟨0x7, 0x11, val1⟩
def xcodeGoto (val1 : UInt32) : Xcode := ⟨0x9, 0x0, 9 * (val1 - 1)⟩
def xcodeEnd (val1 : UInt32) : Xcode := ⟨0xEE, val1, 0x0⟩

/-- The calls of the macros. -/
inductive Macro where
  | peek (val1 : UInt32)
  | poke (val1 val2 : UInt32)
  | pciout (val1 val2 : UInt32)
  | pciinA (val1 : UInt32)
  | bittoggle (val1 val2 : UInt32)
  | ifgoto (val1 val2 : UInt32)
  | outb (val1 val2 : UInt32)
  | inb (val1 : UInt32)
  | pokeA (val1 : UInt32)
  | pcioutA (val1 : UInt32)
  | outbA (val1 : UInt32)
  | goto (val1 : UInt32)
  | END (val1 : UInt32)
  deriving Repr, DecidableEq

/-- What a call is assembled to. -/
def Macro.record : Macro → Xcode
  | peek val1 => xcodePeek val1
  | poke val1 val2 => xcodePoke val1 val2
  | pciout val1 val2 => xcodePciout val1 val2
  | pciinA val1 => xcodePciinA val1
  | bittoggle val1 val2 => xcodeBittoggle val1 val2
  | ifgoto val1 val2 => xcodeIfgoto val1 val2
  | outb val1 val2 => xcodeOutb val1 val2
  | inb val1 => xcodeInb val1
  | pokeA val1 => xcodePokeA val1
  | pcioutA val1 => xcodePcioutA val1
  | outbA val1 => xcodeOutbA val1
  | goto val1 => xcodeGoto val1
  | END val1 => xcodeEnd val1

/-- The macro of a name, with its arguments. -/
def expand (name : String) (arguments : List UInt32) : Option Xcode :=
  match name, arguments with
  | "xcode_peek", [val1] => some (xcodePeek val1)
  | "xcode_poke", [val1, val2] => some (xcodePoke val1 val2)
  | "xcode_pciout", [val1, val2] => some (xcodePciout val1 val2)
  | "xcode_pciin_a", [val1] => some (xcodePciinA val1)
  | "xcode_bittoggle", [val1, val2] => some (xcodeBittoggle val1 val2)
  | "xcode_ifgoto", [val1, val2] => some (xcodeIfgoto val1 val2)
  | "xcode_outb", [val1, val2] => some (xcodeOutb val1 val2)
  | "xcode_inb", [val1] => some (xcodeInb val1)
  | "xcode_poke_a", [val1] => some (xcodePokeA val1)
  | "xcode_pciout_a", [val1] => some (xcodePcioutA val1)
  | "xcode_outb_a", [val1] => some (xcodeOutbA val1)
  | "xcode_goto", [val1] => some (xcodeGoto val1)
  | "xcode_END", [val1] => some (xcodeEnd val1)
  | _, _ => none

/-! ## Lines -/

/-- The assembler skips spaces before an operand. -/
def skipSpaces (text : List Char) : List Char := text.dropWhile (· = ' ')

/-- A literal as an operand: of a negative one the low 32 bits count. -/
def operand (text : List Char) : Option UInt32 :=
  (readInteger (skipSpaces text)).map UInt32.ofInt

/-- A macro call. -/
def assembleCall (line : List Char) : Option (List Byte) :=
  match line.splitOn '(' with
  | [name, rest] =>
    match rest.splitOn ')' with
    | [arguments, []] =>
      ((arguments.splitOn ',').mapM operand).bind fun values =>
        (expand (String.ofList name) values).map Xcode.bytes
    | _ => none
  | _ => none

/-- What the directive of a name stores. -/
def directiveBytes (directive : String) (value : UInt32) : Option (List Byte) :=
  match directive with
  | ".byte" => some [value.toUInt8]
  | ".long" => some (dwordBytes value.toNat)
  | _ => none

/-- A directive, or an empty statement. -/
def assembleStatement (statement : List Char) : Option (List Byte) :=
  match (skipSpaces statement).splitOn ' ' with
  | [[]] => some []
  | [directive, value] => (operand value).bind (directiveBytes (String.ofList directive))
  | _ => none

/-- The statements of a line that is no call of a macro. -/
def assembleStatements (line : List Char) : Option (List Byte) :=
  ((line.splitOn ';').mapM assembleStatement).map List.flatten

/-- The bytes of a line. -/
def assemble (line : List Char) : Option (List Byte) :=
  (assembleCall line).or (assembleStatements line)

end Cromwell.Xcodes
