import Cromwell.Boot.MemoryLayout
import Cromwell.Std.Walk

/-!
# Starting ELF images

Once a kernel has been placed its image is offered to the ELF loader of Etherboot. An image
that is not accepted leaves everything as it was; one that is refused at one of its segments
has had the ends of those before it cleared; and one that is accepted is loaded to wherever
its segments say, and started. A started kernel never comes back, and neither does a loader
whose notes lead in a circle.
-/

namespace Cromwell.Etherboot

open Cromwell.Std Cromwell.Std.Program Cromwell.Boot

/-! ## Headers -/

/-- A halfword at an address. -/
def half (memory : Memory) (address : UInt32) : UInt32 :=
  (memory address.toNat).toUInt32 ||| (memory (address.toNat + 1)).toUInt32 <<< 8

/-- A word at an address. -/
def word (memory : Memory) (address : UInt32) : UInt32 :=
  half memory address ||| half memory (address + 2) <<< 16

structure Elf32Ehdr where
  eIdent : List Byte
  eType : UInt32
  eMachine : UInt32
  eVersion : UInt32
  ePhoff : UInt32
  eEhsize : UInt32
  ePhentsize : UInt32
  ePhnum : UInt32

/-- The header of an image, as far as it is looked at. -/
def Elf32Ehdr.read (memory : Memory) (data : UInt32) : Elf32Ehdr where
  eIdent := memory.bytes data.toNat 7
  eType := half memory (data + 16)
  eMachine := half memory (data + 18)
  eVersion := word memory (data + 20)
  ePhoff := word memory (data + 28)
  eEhsize := half memory (data + 40)
  ePhentsize := half memory (data + 42)
  ePhnum := half memory (data + 44)

/-- A 32-bit executable for this machine, with headers of the usual sizes. -/
def Elf32Ehdr.Accepted (elf32 : Elf32Ehdr) : Prop :=
  elf32.eIdent = [0x7f, 0x45, 0x4c, 0x46, 1, 1, 1] ∧ elf32.eType = 2 ∧ elf32.eVersion = 1 ∧
    elf32.eEhsize = 52 ∧ elf32.ePhentsize = 32 ∧ (elf32.eMachine = 3 ∨ elf32.eMachine = 6)

instance (elf32 : Elf32Ehdr) : Decidable elf32.Accepted := inferInstanceAs (Decidable (_ ∧ _))

/-- `PT_LOAD` -/
def ptLoad : UInt32 := 1

/-- `PT_NOTE` -/
def ptNote : UInt32 := 4

structure Elf32Phdr where
  pType : UInt32
  pOffset : UInt32
  pPaddr : UInt32
  pFilesz : UInt32
  pMemsz : UInt32

/-- A program header. The high bits of its address are dropped. -/
def Elf32Phdr.read (memory : Memory) (phdr : UInt32) : Elf32Phdr where
  pType := word memory phdr
  pOffset := word memory (phdr + 4)
  pPaddr := word memory (phdr + 12) &&& 0xfffffff
  pFilesz := word memory (phdr + 16)
  pMemsz := word memory (phdr + 20)

/-- The first part of `elf32_probe`: the program headers of an image that is accepted. -/
def elf32Headers (memory : Memory) (data len : UInt32) : Option (List Elf32Phdr) :=
  if len < 52 then none
  else
    let elf32 := Elf32Ehdr.read memory data
    if ¬elf32.Accepted then none
    else
      let phdrSize := elf32.ePhnum * elf32.ePhentsize
      if len < elf32.ePhoff + phdrSize then none
      else if 1024 < phdrSize then none
      else some ((List.range elf32.ePhnum.toNat).map fun i =>
        Elf32Phdr.read memory (data + elf32.ePhoff + 32 * UInt32.ofNat i))

/-! ## Notes -/

/-- The passes a loop over addresses can take without coming back to one. -/
@[irreducible] def notePasses : Nat := 2 ^ 32

/-- Where the next note is, unless this one reaches the end or goes beyond. -/
def nextNote (memory : Memory) (stop note : UInt32) : Option UInt32 :=
  if note < stop then
    let nDesc := note + 12 + ((word memory note + 3) &&& 0xfffffffc)
    let next := nDesc + ((word memory (note + 4) + 3) &&& 0xfffffffc)
    if stop < next then none else some next
  else none

/-- A pass of the loop of `process_elf_notes`. What the notes say is printed, or compared with
a sum that is only printed as well. -/
def notePass (memory : Memory) (stop note : UInt32) : Pass UInt32 Unit :=
  match nextNote memory stop note with
  | none => .leave ()
  | some next => .next next

def processElfNotes (header : UInt32) (phdr : Elf32Phdr) : Program Ram Unit := fun ram =>
  let note := header + phdr.pOffset
  match whileLoop (notePass ram.memory (note + phdr.pFilesz)) notePasses note with
  | .leave () => .leave ((), ram)
  | .next _ => .next ram

/-- The notes of an image. Those that are not all in it are ignored. -/
def elfNotes (process : Elf32Phdr → Program Ram Unit) (len : UInt32) :
    List Elf32Phdr → Program Ram Unit
  | [] => return ()
  | phdr :: rest => do
    if phdr.pType ≠ ptNote then
      elfNotes process len rest
    else if len < phdr.pOffset + phdr.pFilesz then
      elfNotes process len rest
    else
      process phdr
      elfNotes process len rest

/-! ## Segments -/

inductive E820Type where
  | ram
  | reserved
  deriving DecidableEq

structure E820Entry where
  addr : Nat
  size : Nat
  type : E820Type

/-- `meminfo.map` -/
def meminfoMap : List E820Entry :=
  [⟨0, 0x9f000, .ram⟩, ⟨0x9f000, 0x61000, .reserved⟩, ⟨0x100000, 0x3B00000, .ram⟩,
    ⟨0x3C00000, 0x400000, .reserved⟩]

/-- `prep_segment`: a segment from `start` to `stop`, of which the part up to `mid` is in
the image. -/
def prepSegment (start mid stop : UInt32) : Program Ram Bool := do
  if stop < mid then
    return false
  else if meminfoMap.all fun entry => ¬(entry.type = .ram ∧ entry.addr ≤ start.toNat ∧
      stop.toNat ≤ entry.addr + entry.size) then
    return false
  else if mid < stop then
    clear mid.toNat (stop - mid).toNat
    return true
  else
    return true

def Elf32Phdr.mid (phdr : Elf32Phdr) : UInt32 := phdr.pPaddr + phdr.pFilesz

def Elf32Phdr.stop (phdr : Elf32Phdr) : UInt32 := phdr.pPaddr + phdr.pMemsz

/-- The segments that are to be loaded are prepared, up to one that does not fit. -/
def prepSegments : List Elf32Phdr → Program Ram Bool
  | [] => return true
  | phdr :: rest => do
    if phdr.pType ≠ ptLoad then
      prepSegments rest
    else
      let fit ← prepSegment phdr.pPaddr phdr.mid phdr.stop
      if fit = false then
        return false
      else
        prepSegments rest

/-- `probe_image`, of which only `elf32_probe` is compiled. -/
def probeImage (data len : UInt32) : Program Ram (Option (List Elf32Phdr)) := do
  match ← look fun ram => elf32Headers ram.memory data len with
  | none => return none
  | some phdrs =>
    elfNotes (processElfNotes data) len phdrs
    let fit ← prepSegments phdrs
    return if fit = true then some phdrs else none

/-! ## Loading -/

/-- What is left to load behind an offset, with something in it. -/
def Elf32Phdr.Ahead (phdr : Elf32Phdr) (offset : Nat) : Prop :=
  phdr.pType = ptLoad ∧ phdr.pFilesz ≠ 0 ∧ offset ≤ phdr.pOffset.toNat

instance (phdr : Elf32Phdr) (offset : Nat) : Decidable (phdr.Ahead offset) :=
  inferInstanceAs (Decidable (_ ∧ _))

/-- A pass of the search for the segment that comes next in the file. -/
def chooseSegment (offset : Nat) (segment : Option Elf32Phdr) (phdr : Elf32Phdr) :
    Option Elf32Phdr :=
  if ¬phdr.Ahead offset then segment
  else
    match segment with
    | none => some phdr
    | some chosen => if chosen.pOffset ≤ phdr.pOffset then segment else some phdr

def nextSegment (phdrs : List Elf32Phdr) (offset : Nat) : Option Elf32Phdr :=
  phdrs.foldl (chooseSegment offset) none

/-- What is kept of the segment that is being loaded from one pass to the next. -/
structure Download where
  curaddr : Nat
  skip : Nat
  toread : Nat
  offset : Nat

/-- The segment is the next one to be loaded. -/
def Elf32Phdr.sought (segment : Elf32Phdr) (offset : Nat) : Download where
  curaddr := (segment.pPaddr &&& 0xfffffff).toNat
  skip := segment.pOffset.toNat - offset
  toread := segment.pFilesz.toNat
  offset := offset

/-- The second half of a pass: the next segment is sought. The loop is left if there is none,
or at the end of the image. -/
def seekSegment (phdrs : List Elf32Phdr) (len : UInt32) (offset : Nat) : Pass Download Unit :=
  match nextSegment phdrs offset with
  | none => .leave ()
  | some segment => if offset < len.toNat then .next (segment.sought offset) else .leave ()

/-- A pass with a segment: what is in front of it is skipped, and as much of it copied as the
image has. -/
def downloadPass (phdrs : List Elf32Phdr) (data len : UInt32) (estate : Download) :
    Program Ram (Pass Download Unit) := do
  if estate.skip ≠ 0 ∧ len.toNat - estate.offset ≤ estate.skip then
    return .leave ()
  else
    let offset := estate.offset + estate.skip
    let cplen := min (len.toNat - offset) estate.toread
    copy estate.curaddr (data.toNat + offset) cplen
    if estate.toread - cplen ≠ 0 then
      return .leave ()
    else
      return seekSegment phdrs len (offset + cplen)

/-- `xstart32` moves the ramdisk, for which the sixth header stands, and starts the kernel. -/
def startKernel (phdrs : List Elf32Phdr) : Program Ram Unit := do
  match phdrs[5]? with
  | none => stuck
  | some ramdisk =>
    if ramdisk.pFilesz ≠ 0 ∧ ramdisk.pPaddr ≠ 0 then
      copy initrdStart ramdisk.pPaddr.toNat ramdisk.pFilesz.toNat
      stuck
    else
      stuck

/-- `elf32_download`, for a whole image. However the loop is left, the kernel is started. -/
def elf32Download (phdrs : List Elf32Phdr) (data len : UInt32) : Program Ram Unit := do
  match seekSegment phdrs len 0 with
  | .leave () => startKernel phdrs
  | .next estate =>
    loop (downloadPass phdrs data len) (len.toNat + 1) estate
    startKernel phdrs

def tryElfBoot (image len : UInt32) : Program Ram Unit := do
  let magic ← look fun ram => word ram.memory image
  if magic ≠ 0x464c457f then
    return ()
  else
    match ← probeImage image len with
    | none => return ()
    | some phdrs => elf32Download phdrs image len

end Cromwell.Etherboot
