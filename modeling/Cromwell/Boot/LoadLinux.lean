import Cromwell.Boot.Media
import Cromwell.Etherboot.ElfLoader

/-!
# Loading Linux

A configuration file is read to the place of the kernel setup and parsed there. The kernel
is read to the place of the initrd, split into its setup and its protected-mode part, and
these are moved to where they belong before the initrd is read. A kernel that is an ELF
image is started in the middle of this.
-/

namespace Cromwell.Boot

open Cromwell.Std Cromwell.Std.Program Cromwell.Lib Cromwell.Fatx Cromwell.Iso9660
open Cromwell.Etherboot

def maxConfigFilesize : Nat := 1024 * 256
def maxLine : Nat := 2048

/-- The strings of a configuration entry. -/
structure OptLinux where
  szKernel : List Byte
  szInitrd : List Byte
  szAppend : List Byte

/-- A kernel is taken apart and moved into place. Sizes are `unsigned`; an image shorter than
its setup leaves a count that has wrapped. Then the image is offered to the ELF loader. -/
def memPlaceKernel (kernelOrg : Nat) (kernelSize : UInt32) : Program Ram Unit := do
  let nSizeHeader ← look fun ram => ((ram.memory (kernelOrg + 0x1f1)).toUInt32 + 1) * 512
  copy kernelSetup kernelOrg nSizeHeader.toNat
  copy kernelPmCode (kernelOrg + nSizeHeader.toNat) (kernelSize - nSizeHeader).toNat
  tryElfBoot (UInt32.ofNat kernelOrg) kernelSize

/-- The configuration file, from the boot directory or else from the root. -/
def openConfig (grub : Grub) (szGrub : Memory) : GrubFile :=
  let szGrub := szGrub.store 4 (text "/boot/linuxboot.cfg" ++ [0])
  let file := grub szGrub
  if file.nRet ≠ 1 ∨ file.errnum ≠ 0 then grub (szGrub.store 4 (text "/linuxboot.cfg" ++ [0]))
  else file

/-- The length of the text at `KERNEL_SETUP` that is parsed, if there is one. -/
def detectLinuxNative (grub : Grub) (szGrub : Memory) : Program Ram (Option Nat) := do
  clear kernelSetup kernelHdrSize
  let file := openConfig grub szGrub
  if file.nRet ≠ 1 ∨ file.errnum ≠ 0 then
    return none
  else
    let nLen ← grubRead .config file kernelSetup file.filemax
    return some (min nLen maxConfigFilesize)

def loadLinuxNative (grub : Grub) (szGrub : Memory) (optLinux : OptLinux) : Program Ram Bool := do
  clear kernelSetup kernelHdrSize
  let szGrub := szGrub.store 4 (strncpy optLinux.szKernel optLinux.szKernel.length)
  let file := grub szGrub
  if file.nRet ≠ 1 then
    return false
  else
    let dwKernelSize ← grubRead .kernel file initrdStart maxKernelSize
    memPlaceKernel initrdStart (UInt32.ofNat dwKernelSize)
    if optLinux.szInitrd.length ≠ 0 then
      let file := grub (szGrub.store 4 (strncpy optLinux.szInitrd maxLine))
      if file.filemax = 0 then
        return false
      else if file.nRet ≠ 1 ∨ file.errnum ≠ 0 then
        return false
      else
        let _ ← grubRead .initrd file initrdStart maxInitrdSize
        return true
    else
      return true

def loadLinuxFATX (disk : Disk) (arrays : Purpose → Arrays) (partition : Option FATXPartition)
    (fuel : Nat) (optLinux : OptLinux) : Program Ram Bool := do
  clear kernelSetup kernelHdrSize
  let (loaded, infokernel) ← loadFixed .kernel disk (arrays .kernel) partition fuel
    optLinux.szKernel initrdStart
  if loaded = false then
    return false
  else
    memPlaceKernel initrdStart infokernel.fileSize
    if optLinux.szInitrd.length ≠ 0 then
      let (loaded, _) ← loadFixed .initrd disk (arrays .initrd) partition fuel
        optLinux.szInitrd initrdStart
      return loaded
    else
      return true

/-- The length of the text at `KERNEL_SETUP` that is parsed, if there is one. -/
def detectLinuxCD (disc : Disc) : Program Ram (Option Int32) := do
  clear kernelSetup kernelHdrSize
  let first ← getFile .config disc (text "/linuxboo.cfg") kernelSetup 0x800
  if first ≤ 0 then
    let second ← getFile .config disc (text "/linuxboot.cfg") kernelSetup 0x800
    return if second ≤ 0 then none else some second
  else
    return some first

def loadLinuxCD (disc : Disc) (optLinux : OptLinux) : Program Ram Bool := do
  clear kernelSetup kernelHdrSize
  let dwKernelSize ← getFile .kernel disc optLinux.szKernel initrdStart maxKernelSize
  if dwKernelSize < 0 then
    return false
  else
    memPlaceKernel initrdStart dwKernelSize.toUInt32
    if optLinux.szInitrd.length ≠ 0 then
      let dwInitrdSize ← getFile .initrd disc optLinux.szInitrd initrdStart maxInitrdSize
      return decide (0 ≤ dwInitrdSize)
    else
      return true

end Cromwell.Boot
