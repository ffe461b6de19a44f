import Cromwell.Ide.Commands

/-!
# The sector a command addresses

A drive keeps the last two values written to each register of a command. The
commands for 28 bits take the block from the last ones, as a linear address or as
cylinder, head and sector; those for 48 bits take it from both. Reading and
writing a sector send the same registers, but only the read has a command that
looks at more than 28 bits.
-/

namespace Cromwell.Ide

open Cromwell.Std Cromwell.Std.Program

/-! ## The registers of a drive -/

/-- A register that keeps the value before the last one. -/
structure Fifo where
  current : Byte
  previous : Byte

def Fifo.write (register : Fifo) (value : Byte) : Fifo :=
  { current := value, previous := register.current }

/-- The registers a command takes its parameters from. -/
structure TaskFile where
  sectorCount : Fifo
  sectorNumber : Fifo
  cylinderLsb : Fifo
  cylinderMsb : Fifo
  drivehead : Byte

def TaskFile.write (base : UInt16) (file : TaskFile) (wAds : UInt16) (bValue : Byte) : TaskFile :=
  if wAds = ideRegSectorCount base then
    { file with sectorCount := file.sectorCount.write bValue }
  else if wAds = ideRegSectorNumber base then
    { file with sectorNumber := file.sectorNumber.write bValue }
  else if wAds = ideRegCylinderLsb base then
    { file with cylinderLsb := file.cylinderLsb.write bValue }
  else if wAds = ideRegCylinderMsb base then
    { file with cylinderMsb := file.cylinderMsb.write bValue }
  else if wAds = ideRegDrivehead base then
    { file with drivehead := bValue }
  else file

/-- The commands of a trace, each with the registers it finds. -/
def commands (base : UInt16) : TaskFile → List Access → List (Byte × TaskFile)
  | _, [] => []
  | file, .outByte wAds bValue :: trace =>
    if wAds = ideRegCommand base then (bValue, file) :: commands base file trace
    else commands base (file.write base wAds bValue) trace
  | file, _ :: trace => commands base file trace

/-- What a command asks for. -/
structure Transfer where
  drive : Nat
  block : Nat
  count : Nat
  deriving Repr, DecidableEq

/-- The drive a command selects. -/
def TaskFile.drive (file : TaskFile) : Nat := file.drivehead.toNat / 0x10 % 2

/-- A linear address is asked for. -/
def TaskFile.Linear (file : TaskFile) : Prop := file.drivehead.toNat / 0x40 % 2 = 1

instance (file : TaskFile) : Decidable file.Linear :=
  inferInstanceAs (Decidable (file.drivehead.toNat / 0x40 % 2 = 1))

/-- The head, or the highest four bits of a linear address. -/
def TaskFile.head (file : TaskFile) : Nat := file.drivehead.toNat % 0x10

/-- The lowest three bytes of a linear address. -/
def TaskFile.low (file : TaskFile) : Nat :=
  file.sectorNumber.current.toNat + file.cylinderLsb.current.toNat * 2 ^ 8 +
    file.cylinderMsb.current.toNat * 2 ^ 16

/-- The highest three bytes of a 48-bit address. -/
def TaskFile.high (file : TaskFile) : Nat :=
  file.sectorNumber.previous.toNat + file.cylinderLsb.previous.toNat * 2 ^ 8 +
    file.cylinderMsb.previous.toNat * 2 ^ 16

/-- The rules of the commands 0x20 and 0x30. -/
def TaskFile.decode28 (file : TaskFile) (heads sectorsPerTrack : Nat) : Option Transfer :=
  let count := file.sectorCount.current.toNat
  if file.Linear then
    some { drive := file.drive, block := file.low + file.head * 2 ^ 24, count }
  else if file.sectorNumber.current = 0 then none
  else
    let cylinder := file.cylinderLsb.current.toNat + file.cylinderMsb.current.toNat * 2 ^ 8
    let track := cylinder * heads + file.head
    some { drive := file.drive
           block := track * sectorsPerTrack + (file.sectorNumber.current.toNat - 1)
           count }

/-- The rules of the commands 0x24 and 0x34. -/
def TaskFile.decode48 (file : TaskFile) : Option Transfer :=
  if file.Linear then
    some { drive := file.drive
           block := file.low + file.high * 2 ^ 24
           count := file.sectorCount.current.toNat + file.sectorCount.previous.toNat * 2 ^ 8 }
  else none

/-- What a command asks a drive of this geometry for. -/
def decode (heads sectorsPerTrack : Nat) (command : Byte × TaskFile) : Option Transfer :=
  if command.1 = 0x20 ∨ command.1 = 0x30 then command.2.decode28 heads sectorsPerTrack
  else if command.1 = 0x24 ∨ command.1 = 0x34 then command.2.decode48
  else none

section Commands

variable {base : UInt16} {command : IdeCommand} {params : IdeCommandParams}

/-- The registers a task file leaves, whatever they were. -/
def IdeCommandParams.taskFile (params : IdeCommandParams) : TaskFile where
  sectorCount := { current := params.mBCountSector, previous := params.mBCountSectorExt }
  sectorNumber := { current := params.mBSector, previous := params.mBSectorExt }
  cylinderLsb :=
    { current := (params.mWCylinder &&& 0xFF).toUInt8
      previous := (params.mWCylinderExt &&& 0xFF).toUInt8 }
  cylinderMsb :=
    { current := (params.mWCylinder >>> 8).toUInt8
      previous := (params.mWCylinderExt >>> 8).toUInt8 }
  drivehead := params.mBDrivehead

theorem commands_silent {before : List Access} (silent : Silent base before) (file : TaskFile)
    (rest : List Access) : ∃ found, commands base file (before ++ rest) =
      commands base found rest := by
  induction before generalizing file with
  | nil => exact ⟨file, rfl⟩
  | cons access before ih =>
      have later : Silent base before := fun other member =>
        silent other (List.mem_cons_of_mem _ member)
      cases access with
      | outByte wAds bValue =>
          have other : wAds ≠ ideRegCommand base := silent _ List.mem_cons_self
          rw [List.cons_append, commands, if_neg other]
          exact ih later _
      | inByte _ _ => exact ih later file
      | inWord _ _ => exact ih later file
      | outWord _ _ => exact ih later file

theorem commands_of_silent {trace : List Access} (silent : Silent base trace) (file : TaskFile) :
    commands base file trace = [] := by
  obtain ⟨found, same⟩ := commands_silent silent file []
  rwa [List.append_nil] at same

theorem commands_taskFileWrites (file : TaskFile) (rest : List Access) :
    commands base file (taskFileWrites base command params ++ rest) =
      (command.code, params.taskFile) :: commands base params.taskFile rest := by
  simp [commands, taskFileWrites, TaskFile.write, ideRegSectorCount, ideRegSectorNumber,
    ideRegCylinderLsb, ideRegCylinderMsb, ideRegDrivehead, ideRegCommand, Fifo.write,
    IdeCommandParams.taskFile]

/-- A trace that issues one task file has one command. -/
theorem commands_of_issues {trace : List Access} (issues : Issues base command params trace)
    (file : TaskFile) : commands base file trace = [(command.code, params.taskFile)] := by
  obtain ⟨before, after, silentBefore, silentAfter, rfl⟩ := issues
  obtain ⟨found, same⟩ := commands_silent silentBefore file
    (taskFileWrites base command params ++ after)
  rw [same, commands_taskFileWrites, commands_of_silent silentAfter]

end Commands

/-! ## The address of a sector -/

section Sector

variable {info : DriveInfo} {nDriveIndex : Int} {block : UInt32} {extended plain : IdeCommand}

/-- A drive that can be selected. -/
def Selectable (nDriveIndex : Int) : Prop := 0 ≤ nDriveIndex ∧ nDriveIndex < 2

/-- A hard disk was found. -/
structure DriveInfo.HardDisk (info : DriveInfo) : Prop where
  exists_ : info.mFDriveExists = true
  ata : info.mFAtapi = false

/-- The block is one of the drive: below its number of sectors where it takes linear
addresses, and within its cylinders where it does not. -/
inductive DriveInfo.Within (info : DriveInfo) (block : UInt32) : Prop where
  | lba (mode : info.mBLbaMode = ideDhLba) (bounded : block < info.mDwCountSectorsTotal)
  | chs (mode : info.mBLbaMode = ideDhChs)
      (sectors : 1 ≤ info.mWCountSectorsPerTrack ∧ info.mWCountSectorsPerTrack ≤ 255)
      (heads : 1 ≤ info.mWCountHeads ∧ info.mWCountHeads ≤ 16)
      (bounded : block.toNat < info.mWCountCylinders.toNat * info.mWCountHeads.toNat *
        info.mWCountSectorsPerTrack.toNat)

/-- The transfer of one sector. -/
def oneSector (nDriveIndex : Int) (block : Nat) : Transfer :=
  { drive := nDriveIndex.toNat, block, count := 1 }

theorem Selectable.cases (selectable : Selectable nDriveIndex) :
    nDriveIndex = 0 ∨ nDriveIndex = 1 := by
  obtain ⟨lower, upper⟩ := selectable
  omega

/-- The three fields of the drive and head register do not overlap. -/
theorem drivehead_fields (selectable : Selectable nDriveIndex) {fixed head mode : Byte}
    (fixedBits : fixed = 0x00 ∨ fixed = ideDhDefault) (nibble : head.toNat < 0x10)
    (modeBits : mode = ideDhChs ∨ mode = ideDhLba) :
    (fixed ||| head ||| ideDhDrive nDriveIndex ||| mode).toNat / 0x10 % 2 = nDriveIndex.toNat ∧
      (fixed ||| head ||| ideDhDrive nDriveIndex ||| mode).toNat % 0x10 = head.toNat ∧
      ((fixed ||| head ||| ideDhDrive nDriveIndex ||| mode).toNat / 0x40 % 2 = 1 ↔
        mode = ideDhLba) := by
  have table : ∀ n : Fin 0x10, ∀ fixed ∈ [0x00, ideDhDefault], ∀ drive ∈ [(0 : Int), 1],
      ∀ mode ∈ [ideDhChs, ideDhLba],
      (fixed ||| UInt8.ofNat n ||| ideDhDrive drive ||| mode).toNat / 0x10 % 2 = drive.toNat ∧
        (fixed ||| UInt8.ofNat n ||| ideDhDrive drive ||| mode).toNat % 0x10 = n.val ∧
        ((fixed ||| UInt8.ofNat n ||| ideDhDrive drive ||| mode).toNat / 0x40 % 2 = 1 ↔
          mode = ideDhLba) := by
    decide +kernel
  have row := table ⟨head.toNat, nibble⟩ fixed (by simpa using fixedBits) nDriveIndex
    (by simpa using selectable.cases) mode (by simpa using modeBits)
  simpa using row

theorem toNat_lowByte (value : UInt32) : (value &&& 0xff).toUInt8.toNat = value.toNat % 2 ^ 8 := by
  rw [UInt32.toNat_toUInt8, UInt32.toNat_and]
  have mask : (0xff : UInt32).toNat = 2 ^ 8 - 1 := rfl
  rw [mask, Nat.and_two_pow_sub_one_eq_mod, Nat.mod_mod]

theorem toNat_middleBytes (value : UInt32) :
    (value >>> 8 &&& 0xffff).toUInt16.toNat = value.toNat / 2 ^ 8 % 2 ^ 16 := by
  rw [UInt32.toNat_toUInt16, UInt32.toNat_and, UInt32.toNat_shiftRight]
  have mask : (0xffff : UInt32).toNat = 2 ^ 16 - 1 := rfl
  rw [mask, Nat.and_two_pow_sub_one_eq_mod, Nat.mod_mod, Nat.shiftRight_eq_div_pow]
  rfl

theorem toNat_highByte (value : UInt32) :
    (value >>> 24 &&& 0xff).toUInt8.toNat = value.toNat / 2 ^ 24 := by
  rw [toNat_lowByte, UInt32.toNat_shiftRight, Nat.shiftRight_eq_div_pow]
  have bounded := value.toNat_lt
  apply Nat.mod_eq_of_lt
  exact Nat.div_lt_of_lt_mul bounded

theorem toNat_highNibble (value : UInt32) :
    (value >>> 24 &&& 0x0f).toUInt8.toNat = value.toNat / 2 ^ 24 % 2 ^ 4 := by
  rw [UInt32.toNat_toUInt8, UInt32.toNat_and, UInt32.toNat_shiftRight]
  have mask : (0x0f : UInt32).toNat = 2 ^ 4 - 1 := rfl
  rw [mask, Nat.and_two_pow_sub_one_eq_mod, Nat.shiftRight_eq_div_pow]
  have small : value.toNat / 2 ^ 24 % 2 ^ 4 < 2 ^ 8 :=
    Nat.lt_trans (Nat.mod_lt _ (by decide)) (by decide)
  exact Nat.mod_eq_of_lt small

theorem toNat_lsb (value : UInt16) : (value &&& 0xFF).toUInt8.toNat = value.toNat % 2 ^ 8 := by
  rw [UInt16.toNat_toUInt8, UInt16.toNat_and]
  have mask : (0xFF : UInt16).toNat = 2 ^ 8 - 1 := rfl
  rw [mask, Nat.and_two_pow_sub_one_eq_mod, Nat.mod_mod]

theorem toNat_msb (value : UInt16) : (value >>> 8).toUInt8.toNat = value.toNat / 2 ^ 8 := by
  rw [UInt16.toNat_toUInt8, UInt16.toNat_shiftRight, Nat.shiftRight_eq_div_pow]
  have bounded := value.toNat_lt
  apply Nat.mod_eq_of_lt
  exact Nat.div_lt_of_lt_mul bounded

/-- The two cylinder registers hold the cylinder. -/
theorem cylinder_taskFile (params : IdeCommandParams) :
    params.taskFile.cylinderLsb.current.toNat +
      params.taskFile.cylinderMsb.current.toNat * 2 ^ 8 = params.mWCylinder.toNat := by
  have lsb := toNat_lsb params.mWCylinder
  have msb := toNat_msb params.mWCylinder
  simp only [IdeCommandParams.taskFile]
  omega

/-- The three bytes that hold the low part of a linear address. -/
theorem low_linear {params : IdeCommandParams}
    (sector : params.mBSector = (block &&& 0xff).toUInt8)
    (cylinder : params.mWCylinder = (block >>> 8 &&& 0xffff).toUInt16) :
    params.taskFile.low = block.toNat % 2 ^ 24 := by
  have lowest : params.mBSector.toNat = block.toNat % 2 ^ 8 := by rw [sector, toNat_lowByte]
  have middle : params.mWCylinder.toNat = block.toNat / 2 ^ 8 % 2 ^ 16 := by
    rw [cylinder, toNat_middleBytes]
  have halves := cylinder_taskFile params
  have sectorNumber : params.taskFile.sectorNumber.current = params.mBSector := rfl
  rw [TaskFile.low, sectorNumber]
  omega

/-! ### Blocks of 28 bits -/

theorem decode28_linear {params : IdeCommandParams} (selectable : Selectable nDriveIndex)
    (count : params.mBCountSector = 1)
    (sector : params.mBSector = (block &&& 0xff).toUInt8)
    (cylinder : params.mWCylinder = (block >>> 8 &&& 0xffff).toUInt16) {fixed head : Byte}
    (fixedBits : fixed = 0x00 ∨ fixed = ideDhDefault) (nibble : head.toNat < 0x10)
    (drivehead : params.mBDrivehead = fixed ||| head ||| ideDhDrive nDriveIndex ||| ideDhLba)
    (heads sectorsPerTrack : Nat) :
    params.taskFile.decode28 heads sectorsPerTrack =
      some (oneSector nDriveIndex (block.toNat % 2 ^ 24 + head.toNat * 2 ^ 24)) := by
  obtain ⟨drive, low, mode⟩ := drivehead_fields selectable fixedBits nibble (.inr rfl)
  rw [← drivehead] at drive low mode
  have linear : params.taskFile.Linear := mode.mpr rfl
  have one : params.taskFile.sectorCount.current.toNat = 1 := by
    simp [IdeCommandParams.taskFile, count]
  rw [TaskFile.decode28, if_pos linear, low_linear sector cylinder, one]
  simp only [TaskFile.drive, TaskFile.head, IdeCommandParams.taskFile, drive, low, oneSector]

/-- What the registers of a sector ask a drive of its geometry for. -/
def sectorTransfer (info : DriveInfo) (nDriveIndex : Int) (block : UInt32)
    (extended plain : IdeCommand) : Option Transfer :=
  let issued := sectorCommand info nDriveIndex block extended plain
  decode info.mWCountHeads.toNat info.mWCountSectorsPerTrack.toNat
    (issued.1.code, issued.2.taskFile)

/-- The command takes 28 bits. -/
def IdeCommand.Short (command : IdeCommand) : Prop := command.code = 0x20 ∨ command.code = 0x30

theorem decode_short {command : IdeCommand} (short : command.Short) (file : TaskFile)
    (heads sectorsPerTrack : Nat) :
    decode heads sectorsPerTrack (command.code, file) = file.decode28 heads sectorsPerTrack :=
  if_pos short

theorem sectorTransfer_linear (selectable : Selectable nDriveIndex) (short : plain.Short)
    (low : block < 0x10000000) (mode : info.mBLbaMode ≠ ideDhChs) :
    sectorTransfer info nDriveIndex block extended plain =
      some (oneSector nDriveIndex block.toNat) := by
  have notHigh : ¬block ≥ 0x10000000 := UInt32.not_le.mpr low
  have bounded : block.toNat < 2 ^ 28 := UInt32.lt_iff_toNat_lt.mp low
  have nibble := toNat_highNibble block
  have inside : (block >>> 24 &&& 0x0f).toUInt8.toNat < 0x10 := by omega
  rw [sectorTransfer, sectorCommand, if_neg notHigh, if_neg mode, decode_short short,
    decode28_linear selectable rfl rfl rfl (.inr rfl) inside rfl, nibble]
  have whole : block.toNat % 2 ^ 24 + block.toNat / 2 ^ 24 % 2 ^ 4 * 2 ^ 24 = block.toNat := by
    omega
  rw [whole]

/-- Decoding a cylinder, head and sector. -/
theorem decode28_chs {params : IdeCommandParams} (selectable : Selectable nDriveIndex)
    (count : params.mBCountSector = 1) {head : Byte} (nibble : head.toNat < 0x10)
    (drivehead : params.mBDrivehead =
      ideDhDefault ||| head ||| ideDhDrive nDriveIndex ||| ideDhChs)
    {sector : Nat} (sectorNumber : params.mBSector.toNat = 1 + sector)
    (heads sectorsPerTrack : Nat) :
    params.taskFile.decode28 heads sectorsPerTrack =
      some (oneSector nDriveIndex
        ((params.mWCylinder.toNat * heads + head.toNat) * sectorsPerTrack + sector)) := by
  obtain ⟨drive, low, mode⟩ := drivehead_fields selectable (.inr rfl) nibble (.inl rfl)
  rw [← drivehead] at drive low mode
  have notLinear : ¬params.taskFile.Linear := fun linear => by
    have chs := mode.mp linear
    revert chs
    decide
  have one : params.taskFile.sectorCount.current.toNat = 1 := by
    simp [IdeCommandParams.taskFile, count]
  have number : params.taskFile.sectorNumber.current = params.mBSector := rfl
  have positive : params.mBSector ≠ 0 := fun zero => by
    rw [zero, UInt8.toNat_zero] at sectorNumber
    omega
  have fromZero : params.mBSector.toNat - 1 = sector := by omega
  rw [TaskFile.decode28, if_neg notLinear, number, if_neg positive, one, cylinder_taskFile,
    fromZero]
  simp only [TaskFile.drive, TaskFile.head, IdeCommandParams.taskFile, drive, low, oneSector]

section Track

variable {sectors heads : UInt16}

theorem toNat_sectorOnTrack (block : UInt32) (positive : 0 < sectors.toNat)
    (bounded : sectors.toNat ≤ 255) :
    (1 + block % sectors.toUInt32).toUInt8.toNat = 1 + block.toNat % sectors.toNat := by
  have below := Nat.mod_lt block.toNat positive
  rw [UInt32.toNat_toUInt8, UInt32.toNat_add, UInt32.toNat_mod, UInt16.toNat_toUInt32,
    UInt32.toNat_one]
  omega

theorem toNat_headOfTrack (sectors : UInt16) (block : UInt32) (positive : 0 < heads.toNat)
    (bounded : heads.toNat ≤ 16) :
    (ideDhHead (block / sectors.toUInt32 % heads.toUInt32).toUInt8).toNat =
      block.toNat / sectors.toNat % heads.toNat := by
  have below := Nat.mod_lt (block.toNat / sectors.toNat) positive
  have mask : (0x0F : UInt8).toNat = 2 ^ 4 - 1 := rfl
  rw [ideDhHead, UInt8.toNat_and, UInt32.toNat_toUInt8, UInt32.toNat_mod, UInt32.toNat_div,
    UInt16.toNat_toUInt32, UInt16.toNat_toUInt32, mask, Nat.and_two_pow_sub_one_eq_mod]
  omega

theorem toNat_cylinderOfTrack {block : UInt32} {cylinders : UInt16}
    (inside : block.toNat < cylinders.toNat * heads.toNat * sectors.toNat) :
    (block / sectors.toUInt32 / heads.toUInt32).toUInt16.toNat =
      block.toNat / sectors.toNat / heads.toNat := by
  have below : block.toNat / sectors.toNat / heads.toNat < cylinders.toNat := by
    rw [Nat.div_div_eq_div_mul, Nat.mul_comm]
    apply Nat.div_lt_of_lt_mul
    rwa [Nat.mul_comm, ← Nat.mul_assoc]
  rw [UInt32.toNat_toUInt16, UInt32.toNat_div, UInt32.toNat_div, UInt16.toNat_toUInt32,
    UInt16.toNat_toUInt32]
  exact Nat.mod_eq_of_lt (Nat.lt_trans below cylinders.toNat_lt)

end Track

/-- A track of a drive with up to sixteen heads, and the sector on it. -/
theorem sectorTransfer_chs (selectable : Selectable nDriveIndex) (short : plain.Short)
    (low : block < 0x10000000) (mode : info.mBLbaMode = ideDhChs)
    (sectors : 1 ≤ info.mWCountSectorsPerTrack ∧ info.mWCountSectorsPerTrack ≤ 255)
    (heads : 1 ≤ info.mWCountHeads ∧ info.mWCountHeads ≤ 16)
    (inside : block.toNat < info.mWCountCylinders.toNat * info.mWCountHeads.toNat *
      info.mWCountSectorsPerTrack.toNat) :
    sectorTransfer info nDriveIndex block extended plain =
      some (oneSector nDriveIndex block.toNat) := by
  have notHigh : ¬block ≥ 0x10000000 := UInt32.not_le.mpr low
  have sectorBounds : 0 < info.mWCountSectorsPerTrack.toNat ∧
      info.mWCountSectorsPerTrack.toNat ≤ 255 := sectors
  have headBounds : 0 < info.mWCountHeads.toNat ∧ info.mWCountHeads.toNat ≤ 16 := heads
  have sector := toNat_sectorOnTrack block sectorBounds.1 sectorBounds.2
  have head := toNat_headOfTrack info.mWCountSectorsPerTrack block headBounds.1
    headBounds.2
  have cylinder := toNat_cylinderOfTrack inside
  have onTrack := Nat.mod_lt (block.toNat / info.mWCountSectorsPerTrack.toNat) headBounds.1
  rw [sectorTransfer, sectorCommand, if_neg notHigh, if_pos mode, decode_short short,
    decode28_chs selectable rfl (by omega) rfl sector, cylinder, head, Nat.div_add_mod',
    Nat.div_add_mod']

/-! ### Blocks beyond 28 bits -/

theorem drivehead_linear (nDriveIndex : Int) :
    ideDhDrive nDriveIndex ||| ideDhLba =
      0x00 ||| 0x00 ||| ideDhDrive nDriveIndex ||| ideDhLba := by
  simp

theorem decode48_linear {params : IdeCommandParams} (selectable : Selectable nDriveIndex)
    (count : params.mBCountSector = 1) (countExt : params.mBCountSectorExt = 0)
    (sector : params.mBSector = (block &&& 0xff).toUInt8)
    (cylinder : params.mWCylinder = (block >>> 8 &&& 0xffff).toUInt16)
    (sectorExt : params.mBSectorExt = (block >>> 24 &&& 0xff).toUInt8)
    (cylinderExt : params.mWCylinderExt = 0)
    (drivehead : params.mBDrivehead = ideDhDrive nDriveIndex ||| ideDhLba) :
    params.taskFile.decode48 = some (oneSector nDriveIndex block.toNat) := by
  have noHead : (0x00 : Byte).toNat < 0x10 := by decide
  obtain ⟨drive, -, mode⟩ := drivehead_fields selectable (.inl rfl) noHead (.inr rfl)
  rw [← drivehead_linear, ← drivehead] at drive mode
  have linear : params.taskFile.Linear := mode.mpr rfl
  have upper : params.taskFile.high = block.toNat / 2 ^ 24 := by
    have byte := toNat_highByte block
    rw [← sectorExt] at byte
    simp [TaskFile.high, IdeCommandParams.taskFile, cylinderExt, byte]
  rw [TaskFile.decode48, if_pos linear, low_linear sector cylinder, upper, Nat.mod_add_div']
  simp [TaskFile.drive, IdeCommandParams.taskFile, drive, oneSector, count, countExt]

/-- The 48-bit command addresses the block. -/
theorem sectorTransfer_extended (selectable : Selectable nDriveIndex)
    (high : block ≥ 0x10000000) :
    sectorTransfer info nDriveIndex block .readExt plain =
      some (oneSector nDriveIndex block.toNat) := by
  rw [sectorTransfer, sectorCommand, if_pos high]
  exact decode48_linear selectable rfl rfl rfl rfl rfl rfl rfl

/-- A 28-bit command in its place loses the upper byte of the block. -/
theorem sectorTransfer_truncated (selectable : Selectable nDriveIndex)
    (high : block ≥ 0x10000000) (short : extended.Short) :
    sectorTransfer info nDriveIndex block extended plain =
      some (oneSector nDriveIndex (block.toNat % 2 ^ 24)) := by
  have noHead : (0x00 : Byte).toNat < 0x10 := by decide
  rw [sectorTransfer, sectorCommand, if_pos high, decode_short short,
    decode28_linear selectable rfl rfl rfl (.inl rfl) noHead (drivehead_linear nDriveIndex)]
  simp

end Sector

/-! ## Reading and writing the same sector -/

section SameSector

variable {σ : Type} {bus : PortBus σ} {fuel : Nat} {tsaHarddiskInfo : Int → DriveInfo}
  {nDriveIndex : Int} {block : UInt32}

/-- What the commands of a trace ask a drive of this geometry for. -/
def asked (info : DriveInfo) (file : TaskFile) (trace : List Access) : List (Option Transfer) :=
  (commands info.mFwPortBase file trace).map
    (decode info.mWCountHeads.toNat info.mWCountSectorsPerTrack.toNat)

/-- The program issues one command, which asks the drive for this transfer whatever its
registers held before; unless it is cut off before it issues any. -/
def Addresses {α : Type} (info : DriveInfo) (transfer : Transfer) (program : IdeProgram σ α) :
    Prop :=
  ∀ file, Emits program
    (fun trace => asked info file trace = [] ∨ asked info file trace = [some transfer])
    fun _ trace => asked info file trace = [some transfer]

/-- On any bus, what reads the sector and what writes it both address the block. -/
def SameSector (tsaHarddiskInfo : Int → DriveInfo) (nDriveIndex : Int) (block : UInt32) : Prop :=
  ∀ (σ : Type) (bus : PortBus σ) (fuel : Nat) (stack memory : Memory) (pbBuffer : Nat)
    (byteOffset nBytes : Int32),
    Addresses (tsaHarddiskInfo nDriveIndex) (oneSector nDriveIndex block.toNat)
      (bootIdeReadSector bus fuel tsaHarddiskInfo stack nDriveIndex memory pbBuffer block
        byteOffset nBytes) ∧
    Addresses (tsaHarddiskInfo nDriveIndex) (oneSector nDriveIndex block.toNat)
      (bootIdeWriteSector bus fuel tsaHarddiskInfo nDriveIndex memory pbBuffer block)

theorem IssuesOnce.addresses {α : Type} {info : DriveInfo} {extended plain : IdeCommand}
    {program : IdeProgram σ α} {transfer : Transfer}
    (issues : IssuesOnce info.mFwPortBase
      (sectorCommand info nDriveIndex block extended plain).1
      (sectorCommand info nDriveIndex block extended plain).2 program)
    (decoded : sectorTransfer info nDriveIndex block extended plain = some transfer) :
    Addresses info transfer program := by
  intro file
  have one : ∀ trace, Issues info.mFwPortBase
      (sectorCommand info nDriveIndex block extended plain).1
      (sectorCommand info nDriveIndex block extended plain).2 trace →
      asked info file trace = [some transfer] := by
    intro trace issued
    rw [asked, commands_of_issues issued, List.map_singleton]
    exact congrArg (fun found => [found]) decoded
  refine Emits.mono issues ?_ ?_
  · rintro trace (silent | issued)
    · exact .inl (by rw [asked, commands_of_silent silent, List.map_nil])
    · exact .inr (one trace issued)
  · exact fun _ trace => one trace

theorem setControl_silent (info : DriveInfo) :
    SilentOnly info.mFwPortBase (setControl bus info) := by
  refine EmitsOnly.update (ε := Access) (fun _ => rfl) fun _ => ?_
  simp [IsCommand, ideRegControl, ideRegCommand, ideRegExtendedOffset, UInt16.add_assoc]

theorem selectDrive_silent (base : UInt16) (bValue : Byte) :
    SilentOnly base (ioOutputByte bus (ideRegDrivehead base) bValue) := by
  refine EmitsOnly.update (ε := Access) (fun _ => rfl) fun _ => ?_
  simp [IsCommand, ideRegDrivehead, ideRegCommand]

/-- The read issues the command of its sector. -/
theorem bootIdeReadSector_issues (selectable : Selectable nDriveIndex)
    (disk : (tsaHarddiskInfo nDriveIndex).HardDisk) (stack memory : Memory) (pbBuffer : Nat)
    (byteOffset nBytes : Int32) :
    IssuesOnce (tsaHarddiskInfo nDriveIndex).mFwPortBase
      (sectorCommand (tsaHarddiskInfo nDriveIndex) nDriveIndex block .readExt .readMultiRetry).1
      (sectorCommand (tsaHarddiskInfo nDriveIndex) nDriveIndex block .readExt .readMultiRetry).2
      (bootIdeReadSector bus fuel tsaHarddiskInfo stack nDriveIndex memory pbBuffer block
        byteOffset nBytes) := by
  have inRange : ¬(nDriveIndex < 0 ∨ nDriveIndex ≥ 2 ∨
      (tsaHarddiskInfo nDriveIndex).mFDriveExists = false) := by
    have found := disk.exists_
    obtain ⟨lower, upper⟩ := selectable
    simp [found]
    omega
  have here : ¬(tsaHarddiskInfo nDriveIndex).mFDriveExists = false := by simp [disk.exists_]
  have ata : ¬(tsaHarddiskInfo nDriveIndex).mFAtapi = true := by simp [disk.ata]
  have started : IssuesOnce (tsaHarddiskInfo nDriveIndex).mFwPortBase
      (sectorCommand (tsaHarddiskInfo nDriveIndex) nDriveIndex block .readExt .readMultiRetry).1
      (sectorCommand (tsaHarddiskInfo nDriveIndex) nDriveIndex block .readExt .readMultiRetry).2
      (startSector bus fuel tsaHarddiskInfo stack nDriveIndex block nBytes) := by
    simp only [startSector, if_neg inRange, if_neg here, if_neg ata]
    refine .after (selectDrive_silent _ _) fun _ => ?_
    refine .after (setControl_silent _) fun _ => ?_
    refine (issueAtaCommand_issues _ _).before fun _ => .ite ?_ (.pure _)
    exact (ioInputByte_reads _).transfers.silent.bind fun _ => .pure _
  refine started.before fun size => ?_
  cases size with
  | error status => exact .pure _
  | ok size =>
      refine .ite ?_ ?_
      · exact (readDataRetry_reads _ _ _).transfers.silent.bind fun _ => .pure _
      · exact (readDataRetry_reads _ _ _).transfers.silent.bind fun _ => .pure _

/-- The write issues the command of its sector, in which the extended form is missing. -/
theorem bootIdeWriteSector_issues (selectable : Selectable nDriveIndex)
    (disk : (tsaHarddiskInfo nDriveIndex).HardDisk) (memory : Memory) (pbBuffer : Nat) :
    IssuesOnce (tsaHarddiskInfo nDriveIndex).mFwPortBase
      (sectorCommand (tsaHarddiskInfo nDriveIndex) nDriveIndex block .writeMultiRetry
        .writeMultiRetry).1
      (sectorCommand (tsaHarddiskInfo nDriveIndex) nDriveIndex block .writeMultiRetry
        .writeMultiRetry).2
      (bootIdeWriteSector bus fuel tsaHarddiskInfo nDriveIndex memory pbBuffer block) := by
  have inRange : ¬(nDriveIndex < 0 ∨ nDriveIndex ≥ 2 ∨
      (tsaHarddiskInfo nDriveIndex).mFDriveExists = false) := by
    have found := disk.exists_
    obtain ⟨lower, upper⟩ := selectable
    simp [found]
    omega
  have here : ¬(tsaHarddiskInfo nDriveIndex).mFDriveExists = false := by simp [disk.exists_]
  simp only [bootIdeWriteSector, if_neg inRange, if_neg here]
  refine .after (selectDrive_silent _ _) fun _ => ?_
  refine .after (setControl_silent _) fun _ => ?_
  refine (issueAtaCommand_issues _ _).before fun _ => .ite ?_ ?_
  · exact (ioInputByte_reads _).transfers.silent.bind fun _ => .pure _
  · exact (writeData_transfers _ _ _).silent

/-! ### When both address the block -/

/-- A block of 28 bits is addressed by whichever command takes 28 bits. -/
theorem sectorTransfer_low {info : DriveInfo} {extended plain : IdeCommand}
    (selectable : Selectable nDriveIndex) (short : plain.Short) (within : info.Within block)
    (low : block < 0x10000000) :
    sectorTransfer info nDriveIndex block extended plain =
      some (oneSector nDriveIndex block.toNat) := by
  cases within with
  | lba mode _ =>
      have notChs : info.mBLbaMode ≠ ideDhChs := by
        rw [mode]
        decide
      exact sectorTransfer_linear selectable short low notChs
  | chs mode sectors heads bounded =>
      exact sectorTransfer_chs selectable short low mode sectors heads bounded

/-- The read addresses every block of the drive. -/
theorem sectorTransfer_read {info : DriveInfo} (selectable : Selectable nDriveIndex)
    (within : info.Within block) :
    sectorTransfer info nDriveIndex block .readExt .readMultiRetry =
      some (oneSector nDriveIndex block.toNat) := by
  by_cases low : block < 0x10000000
  · exact sectorTransfer_low selectable (.inl rfl) within low
  · exact sectorTransfer_extended selectable (UInt32.not_lt.mp low)

/-- A bus on which no drive is ever busy. -/
def NeverBusy (bus : PortBus σ) : Prop :=
  ∀ ports wAds, (bus.inByte ports wAds).1 &&& 0x80 = 0

theorem waitNotBusy_returns (idle : NeverBusy bus) (uIoBase : UInt16) :
    Returns (bootIdeWaitNotBusy bus (fuel + 1) uIoBase) := by
  intro state
  have free := idle state.ports (ideRegAltstatus uIoBase)
  simp [bootIdeWaitNotBusy, loop, ioInputByte, free]

theorem issueAtaCommand_returns (idle : NeverBusy bus) (uIoBase : UInt16) (command : IdeCommand)
    (params : IdeCommandParams) :
    Returns (bootIdeIssueAtaCommand bus (fuel + 1) uIoBase command params) := by
  refine (Returns.update _).bind fun _ => (waitNotBusy_returns idle _).bind fun _ => ?_
  have written : Returns (writeTaskFile bus uIoBase command params) := fun _ => trivial
  exact written.bind fun _ => (waitNotBusy_returns idle _).bind fun _ => .ite (.pure _) (.pure _)

theorem writeData_returns (idle : NeverBusy bus) (uIoBase : UInt16) (memory : Memory)
    (buf size : Nat) : Returns (bootIdeWriteData bus (fuel + 1) uIoBase memory buf size) := by
  refine waitDataReady_returns.bind fun _ => ?_
  refine (writeWords_returns _).bind fun _ => ?_
  refine (waitNotBusy_returns idle _).bind fun _ => .ite (.pure _) ?_
  exact (Returns.update _).bind fun _ => .ite (.pure _) (.pure _)

theorem bootIdeWriteSector_returns (idle : NeverBusy bus) (memory : Memory) (pbBuffer : Nat) :
    Returns (bootIdeWriteSector bus (fuel + 1) tsaHarddiskInfo nDriveIndex memory pbBuffer
      block) := by
  refine .ite (.pure _) ?_
  refine (Returns.update _).bind fun _ => .ite (.pure _) ?_
  refine (Returns.update _).bind fun _ => ?_
  refine (issueAtaCommand_returns idle _ _ _).bind fun _ => .ite ?_ ?_
  · exact (Returns.update _).bind fun _ => .pure _
  · exact writeData_returns idle _ _ _ _

/-- A program that returns addresses no two transfers. -/
theorem Addresses.unique {α : Type} {info : DriveInfo} {program : IdeProgram σ α}
    {transfer other : Transfer} (first : Addresses info transfer program)
    (second : Addresses info other program) (returns : Returns program) (state : IdeState σ) :
    transfer = other := by
  let file : TaskFile := ⟨⟨0, 0⟩, ⟨0, 0⟩, ⟨0, 0⟩, ⟨0, 0⟩, 0⟩
  obtain ⟨result, after, run, -⟩ := (returns state).returns
  obtain ⟨emitted, extended, askedFirst⟩ := (first file state).of_returned run
  obtain ⟨emitted', extended', askedSecond⟩ := (second file state).of_returned run
  have same : emitted = emitted' := List.append_cancel_left (extended.symm.trans extended')
  rw [same, askedSecond] at askedFirst
  injection askedFirst with equal
  injection equal with equal
  exact equal.symm

/-- A drive that is always ready for data. -/
def readyBus : PortBus Unit where
  inByte _ _ := (0x08, ())
  inWord _ _ := (0, ())
  outByte _ _ _ := ()
  outWord _ _ _ := ()

theorem readyBus_neverBusy : NeverBusy readyBus := by
  intro _ _
  have free : (0x08 : Byte) &&& 0x80 = 0 := by decide
  exact free

/-- A block beyond 28 bits is written over another one. -/
theorem not_sameSector (selectable : Selectable nDriveIndex)
    (disk : (tsaHarddiskInfo nDriveIndex).HardDisk) (beyond : block ≥ 0x10000000) :
    ¬SameSector tsaHarddiskInfo nDriveIndex block := by
  intro same
  have truncated : Addresses (tsaHarddiskInfo nDriveIndex)
      (oneSector nDriveIndex (block.toNat % 2 ^ 24))
      (bootIdeWriteSector readyBus 1 tsaHarddiskInfo nDriveIndex (fun _ => 0) 0 block) :=
    (bootIdeWriteSector_issues selectable disk _ _).addresses
      (sectorTransfer_truncated selectable beyond (.inr rfl))
  have addressed := (same Unit readyBus 1 (fun _ => 0) (fun _ => 0) 0 0 0).2
  have returns : Returns
      (bootIdeWriteSector readyBus 1 tsaHarddiskInfo nDriveIndex (fun _ => 0) 0 block) :=
    bootIdeWriteSector_returns readyBus_neverBusy _ _
  have equal := addressed.unique truncated returns ⟨(), []⟩
  have blocks : block.toNat = block.toNat % 2 ^ 24 := congrArg Transfer.block equal
  have large : 2 ^ 28 ≤ block.toNat := UInt32.le_iff_toNat_le.mp beyond
  omega

/-- For every hard disk and every block of it, the read and the write of a sector both
address that block exactly when it needs no more than 28 bits. -/
theorem sameSector_iff (selectable : Selectable nDriveIndex)
    (disk : (tsaHarddiskInfo nDriveIndex).HardDisk)
    (within : (tsaHarddiskInfo nDriveIndex).Within block) :
    SameSector tsaHarddiskInfo nDriveIndex block ↔ block < 0x10000000 := by
  constructor
  · intro same
    by_contra high
    exact not_sameSector selectable disk (UInt32.not_lt.mp high) same
  · intro low σ bus fuel stack memory pbBuffer byteOffset nBytes
    constructor
    · exact (bootIdeReadSector_issues selectable disk _ _ _ _ _).addresses
        (sectorTransfer_read selectable within)
    · exact (bootIdeWriteSector_issues selectable disk _ _).addresses
        (sectorTransfer_low selectable (.inr rfl) within low)

theorem sameSector_iff_largeDrive :
    SameSector largeDrive 0 0x0FFFFFFF ↔ (0x0FFFFFFF : UInt32) < 0x10000000 :=
  sameSector_iff ⟨by decide, by decide⟩ ⟨rfl, rfl⟩ (.lba rfl (by decide))

/-- Sector 2^28 of that drive is written over sector zero. -/
theorem write_wraps_at_largeDrive :
    (largeDrive 0).HardDisk ∧ (largeDrive 0).Within 0x10000000 ∧
      sectorTransfer (largeDrive 0) 0 0x10000000 .writeMultiRetry .writeMultiRetry =
        some (oneSector 0 0) ∧
      ¬SameSector largeDrive 0 0x10000000 := by
  have selectable : Selectable 0 := ⟨by decide, by decide⟩
  refine ⟨⟨rfl, rfl⟩, .lba rfl (by decide), ?_, ?_⟩
  · exact sectorTransfer_truncated selectable (by decide) (.inr rfl)
  · exact not_sameSector selectable ⟨rfl, rfl⟩ (by decide)

end SameSector

end Cromwell.Ide
