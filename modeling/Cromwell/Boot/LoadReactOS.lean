import Cromwell.Boot.Media

/-!
# Loading the ReactOS boot loader

The boot loader file is read to its load area whatever it comes from. It is accepted if a
multiboot header is found near the start of the area.
-/

namespace Cromwell.Boot

open Cromwell.Std Cromwell.Lib Cromwell.Fatx Cromwell.Iso9660

def multibootSearchareaLen : Nat := 8192
def multibootHeaderMagic : Nat := 0x1BADB002

/-- Where a boot loader is, how long it is, and what it is told it came from. -/
structure OptMultiboot where
  pBuffer : Nat
  uBufferSize : UInt32
  uBootDevice : UInt32

/-- `GetMultibootBootDevice` -/
def getMultibootBootDevice (drive part subpartition1 subpartition2 : Byte) : UInt32 :=
  subpartition2.toUInt32 ||| subpartition1.toUInt32 <<< 8 ||| part.toUInt32 <<< 16 |||
    drive.toUInt32 <<< 24

/-- The first position of a header, at a multiple of four from the start of the buffer. -/
def checkMultibootHeader (memory : Memory) (buffer : Nat) : Option Nat :=
  ((List.range (multibootSearchareaLen / 4)).map (buffer + 4 * ·)).find? fun mbHeader =>
    let magic := memory.dword mbHeader
    let flags := memory.dword (mbHeader + 4)
    let checksum := memory.dword (mbHeader + 8)
    magic = multibootHeaderMagic ∧ (magic + flags + checksum) % 2 ^ 32 = 0

/-- What has been read is accepted if it has a header. -/
def accept (uBufferSize uBootDevice : UInt32) : Program Ram (Option OptMultiboot) :=
  .update fun ram =>
    (match checkMultibootHeader ram.memory freeldrLoadArea with
    | none => none
    | some _ => some ⟨freeldrLoadArea, uBufferSize, uBootDevice⟩, ram)

/-- `LoadReactOSNative`: the whole file is read to the place of freeldr, and then looked at. -/
def loadReactOSNative (grub : Grub) (szGrub : Memory) (szPath : List Byte) (drive part : Byte) :
    Program Ram (Option OptMultiboot) := do
  let file := grub (szGrub.store 4 (strncpy szPath szPath.length))
  if file.nRet ≠ 1 then
    return none
  else
    let dwSize ← grubRead .freeldr file freeldrLoadArea file.filemax
    accept (UInt32.ofNat dwSize) (getMultibootBootDevice (0x80 + drive) part 0xff 0xff)

/-- `LoadReactOSFATX` -/
def loadReactOSFATX (disk : Disk) (arrays : Arrays) (partition : FATXPartition) (fuel : Nat)
    (szPath : List Byte) : Program Ram (Option OptMultiboot) := do
  let (loaded, fileinfo) ← loadFixed .freeldr disk arrays (some partition) fuel szPath
    freeldrLoadArea
  if loaded = false then
    return none
  else
    accept fileinfo.fileRead
      (getMultibootBootDevice (0x80 + partition.nDriveIndex.toUInt32.toUInt8) 0 0xff 0xff)

/-- The path of the boot loader that was found, if there is one. -/
def detectReactOSCD (disc : Disc) : Program Ram (Option (List Byte)) := do
  let dwFreeldrSize ← getFile .freeldr disc (text "/loader/freeldr.sys") freeldrLoadArea
    freeldrMaxSize
  if dwFreeldrSize ≤ 0 then
    -- Older versions have `setupldr.sys`.
    let dwSetupldrSize ← getFile .freeldr disc (text "/loader/setupldr.sys") freeldrLoadArea
      freeldrMaxSize
    return if dwSetupldrSize ≤ 0 then none else some (text "/loader/setupldr.sys")
  else
    return some (text "/loader/freeldr.sys")

/-- `LoadReactOSCD`: whatever has been read is taken for the loader, unless the read failed. -/
def loadReactOSCD (disc : Disc) (szPath : List Byte) : Program Ram (Option OptMultiboot) := do
  clear freeldrLoadArea freeldrMaxSize
  let dwSize ← getFile .freeldr disc szPath freeldrLoadArea freeldrMaxSize
  if dwSize < 0 then
    return none
  else
    accept dwSize.toUInt32 (getMultibootBootDevice 0xe0 0xfe 0xff 0xff)

end Cromwell.Boot
