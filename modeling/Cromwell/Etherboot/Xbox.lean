import Cromwell.Std.CString

/-!
# The command line that Etherboot passes to the kernel

`xstart32` takes the command line from the parameters segment of the image and
appends what `find_cmdline` finds among the vendor options of the boot server's
reply. Lengths pass through a plain `char`, which is signed here, and the line
is a local array whose bytes are whatever the stack held before.
-/

namespace Cromwell.Etherboot

open Cromwell.Std

/-- `MAX_APPEND_LINE_LENGTH` -/
def maxAppendLineLength : Nat := 512

/-! ## The vendor options -/

/-- `TAG_LEN(p)` -/
def tagLen (vend : Memory) (p : Nat) : Byte := vend (p + 1)

/-- `rfc1533_cookie` -/
def rfc1533Cookie : List Byte := [99, 130, 83, 99]

/-- `vendorext_magic` -/
def vendorextMagic : List Byte := [0xE4, 0x45, 0x74, 0x68]

/-- The loop of `find_cmdline`, with as many passes as there are bytes in front of
`end_of_rfc1533`: where the command line stands, and its length. -/
def findCmdlineLoop (vend : Memory) (endOfRfc1533 : Nat) :
    (passes p vendorextIsvalid : Nat) → Option (Nat × Byte)
  | 0, _, _ => none
  | passes + 1, p, vendorextIsvalid =>
      if p < endOfRfc1533 then
        let c := vend p
        let next := p + (tagLen vend p).toNat + 2
        if c = 0 then findCmdlineLoop vend endOfRfc1533 passes (p + 1) vendorextIsvalid
        else if c = 128 ∧ 6 ≤ tagLen vend p ∧ vend.bytes (p + 2) 4 = vendorextMagic ∧
            vend (p + 6) = 0 then
          findCmdlineLoop vend endOfRfc1533 passes next (vendorextIsvalid + 1)
        else if c = 129 ∧ 0 < tagLen vend p ∧ vendorextIsvalid ≠ 0 then
          some (p + 2, tagLen vend p)
        else findCmdlineLoop vend endOfRfc1533 passes next vendorextIsvalid
      else none

/-- `find_cmdline`. Places are counted from `bp_vend` on. -/
def findCmdline (vend : Memory) (endOfRfc1533 : Nat) : Option (Nat × Byte) :=
  if vend.bytes 0 4 ≠ rfc1533Cookie then none
  else findCmdlineLoop vend endOfRfc1533 endOfRfc1533 4 0

/-! ## The command line -/

/-- The memory from `appendLine` on, and the ranges written, counted from `appendLine` on. -/
structure AppendLine where
  bytes : Memory
  writes : List (Int × Nat)

namespace AppendLine

/-- `memcpy` to a place of the line. -/
def memcpy (line : AppendLine) (place : Nat) (source : Memory) (origin count : Nat) : AppendLine :=
  { bytes := line.bytes.memcpy place source origin count
    writes := line.writes ++ [((place : Int), count)] }

/-- A byte stored at a place, which may lie in front of the line. -/
def put (line : AppendLine) (place : Int) (value : Byte) : AppendLine :=
  { bytes := if 0 ≤ place then line.bytes.set place.toNat value else line.bytes
    writes := line.writes ++ [(place, 1)] }

@[simp] theorem put_bytes (line : AppendLine) (place : Nat) (value : Byte) :
    (line.put place value).bytes = line.bytes.set place value := by
  simp [put]

@[simp] theorem put_writes (line : AppendLine) (place : Int) (value : Byte) :
    (line.put place value).writes = line.writes ++ [(place, 1)] := rfl

@[simp] theorem memcpy_bytes (line : AppendLine) (place : Nat) (source : Memory)
    (origin count : Nat) :
    (line.memcpy place source origin count).bytes =
      line.bytes.memcpy place source origin count := rfl

@[simp] theorem memcpy_writes (line : AppendLine) (place : Nat) (source : Memory)
    (origin count : Nat) :
    (line.memcpy place source origin count).writes = line.writes ++ [((place : Int), count)] := rfl

end AppendLine

/-- The line before the option is appended, and `appendLinePtr`. -/
structure Started where
  line : AppendLine
  ends : ∃ k, line.bytes k = 0
  appendLinePtr : Nat

/-- `strlen(appendLine)` -/
def Started.strlen (started : Started) : Nat := Terminated.strlen ⟨started.line.bytes, started.ends⟩

/-- The line with the parameters segment, if there is one; without it the line is what the stack
holds. -/
def loadParams (params : Option Memory) (stack : Terminated) : Started :=
  match params with
  | some params =>
      let line := (AppendLine.memcpy ⟨stack.bytes, []⟩ 0 params 0 maxAppendLineLength).put
        (maxAppendLineLength - 1 : Nat) 0
      have ends : ∃ k, line.bytes k = 0 :=
        ⟨maxAppendLineLength - 1, by rw [AppendLine.put_bytes, Memory.set_same]⟩
      { line, ends, appendLinePtr := Terminated.strlen ⟨line.bytes, ends⟩ }
  | none => { line := ⟨stack.bytes, []⟩, ends := stack.ends, appendLinePtr := 0 }

/-- The length that is copied, a `char`. -/
def adjustLength (oldLength : Int32) (length : Int8) : Int8 :=
  if 510 < oldLength + length.toInt32 then (512 - oldLength - 2).toInt8 else length

/-- The option is appended, with a space if something stands in front of it. -/
def appendCmdline (started : Started) (vend : Memory) (bootpCmdline : Nat) (tagLen : Byte) :
    AppendLine :=
  let length := adjustLength (Int32.ofNat started.strlen) tagLen.toInt8
  let spaced :=
    if started.appendLinePtr ≠ 0 then
      (started.line.put started.appendLinePtr 0x20, started.appendLinePtr + 1)
    else (started.line, started.appendLinePtr)
  -- The count of `memcpy` has no sign: a negative length becomes a count beyond 2^31.
  (spaced.1.memcpy spaced.2 vend bootpCmdline length.toInt32.toUInt32.toNat).put
    (spaced.2 + length.toInt) 0

/-- What `xstart32` reads: whether the header is recognised, the bytes of the parameters segment
if there is one, and the vendor area of the reply up to `end_of_rfc1533`. -/
structure BootNotes where
  recognized : Bool
  params : Option Memory
  vend : Memory
  endOfRfc1533 : Nat

/-- The parameters segment, which is used only if the header is recognised. -/
def BootNotes.segment (notes : BootNotes) : Option Memory :=
  if notes.recognized then notes.params else none

/-- The line that `xstart32` passes to `startLinux`. Without boot notes it restarts instead. -/
def xstart32 (notes : Option BootNotes) (stack : Terminated) : Option AppendLine :=
  notes.map fun notes =>
    let started := loadParams notes.segment stack
    match findCmdline notes.vend notes.endOfRfc1533 with
    | some (bootpCmdline, tagLen) => appendCmdline started notes.vend bootpCmdline tagLen
    | none => started.line.put started.appendLinePtr 0

end Cromwell.Etherboot
