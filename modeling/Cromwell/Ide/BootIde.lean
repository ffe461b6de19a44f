import Cromwell.Ide.Ports

/-!
# Commands and transfers

The helper routines of the driver, the packet interface of ATAPI drives, and the
reading and writing of sectors. The delays change nothing and are left out.
Loops that end only when the drive lets them are given a bound on their passes.
-/

namespace Cromwell.Ide

open Cromwell.Std

/-- The commands of `ide_command_t` that are issued here. -/
inductive IdeCommand where
  | readMultiRetry | readExt | writeMultiRetry
  | identify | atapiPacket
  | securitySetPassword | securityUnlock | securityDisable
  deriving Repr, DecidableEq

/-- The byte written to the command register. -/
def IdeCommand.code : IdeCommand → Byte
  | readMultiRetry => 0x20
  | readExt => 0x24
  | writeMultiRetry => 0x30
  | identify => 0xEC
  | atapiPacket => 0xA0
  | securitySetPassword => 0xF1
  | securityUnlock => 0xF2
  | securityDisable => 0xF6

/-! ## Parameters -/

def ideSectorSize : Nat := 0x200

def ideDhDefault : Byte := 0xA0
def ideDhHead (x : Byte) : Byte := x &&& 0x0F
def ideDhMaster : Byte := 0x00
def ideDhSlave : Byte := 0x10
def ideDhDrive (x : Int) : Byte := if x % 2 ≠ 0 then ideDhSlave else ideDhMaster
def ideDhLba : Byte := 0x40
def ideDhChs : Byte := 0x00

/-- `tsIdeCommandParams`, less `m_bPrecomp`. The defaults are those of
`IDE_DEFAULT_COMMAND`. -/
structure IdeCommandParams where
  mBCountSector : Byte := 0x01
  mBSector : Byte := 0x00
  mWCylinder : UInt16 := 0x0000
  mBDrivehead : Byte := ideDhDefault ||| ideDhSlave
  mBCountSectorExt : Byte := 0x00
  mBSectorExt : Byte := 0x00
  mWCylinderExt : UInt16 := 0x0000

/-- What is known of a drive since it was set up: the part of `tsHarddiskInfo` that
transfers depend on. -/
structure DriveInfo where
  mFwPortBase : UInt16
  mWCountHeads : UInt16
  mWCountCylinders : UInt16
  mWCountSectorsPerTrack : UInt16
  mDwCountSectorsTotal : UInt32
  mBLbaMode : Byte
  mFDriveExists : Bool
  mFAtapi : Bool

/-- The parameters that select a drive, its head zero and CHS addressing. -/
def selectDrive (nDriveIndex : Int) : Byte :=
  ideDhDefault ||| ideDhHead 0 ||| ideDhChs ||| ideDhDrive nDriveIndex

section Driver

variable {σ : Type} (bus : PortBus σ) (fuel : Nat) (uIoBase : UInt16)

/-! ## Waiting -/

/-- Polls until the drive is not busy, and returns the error bit. -/
def bootIdeWaitNotBusy : IdeProgram σ Byte :=
  .loop (fun _ : Unit => do
    let b ← ioInputByte bus (ideRegAltstatus uIoBase)
    if b &&& 0x80 ≠ 0 then pure (.next ()) else pure (.leave (b &&& 1))) fuel ()

/-- The polls of `BootIdeWaitDataReady` that `i` still allows. -/
def pollDataReady : (i : Nat) → IdeProgram σ Nat
  | 0 => do
    let b ← ioInputByte bus (ideRegAltstatus uIoBase)
    if b &&& 0x01 ≠ 0 then pure 2 else pure 1
  | i + 1 => do
    let b ← ioInputByte bus (ideRegAltstatus uIoBase)
    if b &&& 0x88 = 0x08 then
      let b ← ioInputByte bus (ideRegAltstatus uIoBase)
      if b &&& 0x01 ≠ 0 then pure 2 else pure 0
    else pollDataReady i

/-- Where `i` of `BootIdeWaitDataReady` starts. -/
def dataReadyPolls : Nat := 0x800000

/-- Polls until the drive asks for data, but not for ever. -/
def bootIdeWaitDataReady : IdeProgram σ Nat := pollDataReady bus uIoBase dataReadyPolls

/-! ## Commands -/

/-- Both halves of every register that has two, then the command. -/
def writeTaskFile (command : IdeCommand) (params : IdeCommandParams) : IdeProgram σ Unit := do
  ioOutputByte bus (ideRegSectorCount uIoBase) params.mBCountSectorExt
  ioOutputByte bus (ideRegSectorNumber uIoBase) params.mBSectorExt
  ioOutputByte bus (ideRegCylinderLsb uIoBase) (params.mWCylinderExt &&& 0xFF).toUInt8
  ioOutputByte bus (ideRegCylinderMsb uIoBase) (params.mWCylinderExt >>> 8).toUInt8
  ioOutputByte bus (ideRegSectorCount uIoBase) params.mBCountSector
  ioOutputByte bus (ideRegSectorNumber uIoBase) params.mBSector
  ioOutputByte bus (ideRegCylinderLsb uIoBase) (params.mWCylinder &&& 0xFF).toUInt8
  ioOutputByte bus (ideRegCylinderMsb uIoBase) (params.mWCylinder >>> 8).toUInt8
  ioOutputByte bus (ideRegDrivehead uIoBase) params.mBDrivehead
  ioOutputByte bus (ideRegCommand uIoBase) command.code

/-- An error from before the command does not matter: the command may be there to
clear it. -/
def bootIdeIssueAtaCommand (command : IdeCommand) (params : IdeCommandParams) :
    IdeProgram σ Nat := do
  let _ ← ioInputByte bus (ideRegStatus uIoBase)
  let _ ← bootIdeWaitNotBusy bus fuel uIoBase
  writeTaskFile bus uIoBase command params
  let n ← bootIdeWaitNotBusy bus fuel uIoBase
  if n ≠ 0 then pure 1 else pure 0

/-! ## Data -/

/-- The words of a block that are read into `memory` from `ptr` on. -/
def readWords : (size : Nat) → (memory : Memory) → (ptr : Nat) → IdeProgram σ Memory
  | 0, memory, _ => pure memory
  | 1, memory, _ => pure memory
  | size + 2, memory, ptr => do
    let w ← ioInputWord bus (ideRegData uIoBase)
    readWords size (memory.store ptr [w.toUInt8, (w >>> 8).toUInt8]) (ptr + 2)

/-- The return value, and memory with the block at `buf`. -/
def bootIdeReadData (memory : Memory) (buf size : Nat) : IdeProgram σ (Nat × Memory) := do
  if (← bootIdeWaitDataReady bus uIoBase) ≠ 0 then
    pure (1, memory)
  else
    let memory ← readWords bus uIoBase size memory buf
    let _ ← ioInputByte bus (ideRegStatus uIoBase)
    let b ← ioInputByte bus (ideRegAltstatus uIoBase)
    if b &&& 0x01 ≠ 0 then pure (2, memory) else pure (0, memory)

/-- The 16-bit word at `ptr`. -/
def wordAt (memory : Memory) (ptr : Nat) : UInt16 :=
  (memory ptr).toUInt16 ||| (memory (ptr + 1)).toUInt16 <<< 8

/-- The words of a block, as they go over the data register. -/
def blockWords (memory : Memory) : (buf size : Nat) → List UInt16
  | _, 0 => []
  | _, 1 => []
  | buf, size + 2 => wordAt memory buf :: blockWords memory (buf + 2) size

def writeWords : List UInt16 → IdeProgram σ Unit
  | [] => pure ()
  | word :: words => do
    ioOutputWord bus (ideRegData uIoBase) word
    writeWords words

/-- Issues a block of data ATA-style, whether or not the drive asked for it. -/
def bootIdeWriteData (memory : Memory) (buf size : Nat) : IdeProgram σ Nat := do
  let _ ← bootIdeWaitDataReady bus uIoBase
  writeWords bus uIoBase (blockWords memory buf size)
  let n ← bootIdeWaitNotBusy bus fuel uIoBase
  if n ≠ 0 then
    pure 1
  else
    let b ← ioInputByte bus (ideRegAltstatus uIoBase)
    if b &&& 0x01 ≠ 0 then pure 2 else pure 0

/-! ## Packets -/

/-- Sends the packet. The byte count it reads first is only for its message. -/
def bootIdeWriteAtapiData (memory : Memory) (buf size : Nat) : IdeProgram σ Nat := do
  let _ ← bootIdeWaitDataReady bus uIoBase
  let _ ← ioInputByte bus (ideRegCylinderLsb uIoBase)
  let _ ← ioInputByte bus (ideRegCylinderMsb uIoBase)
  let n ← ioInputByte bus (ideRegStatus uIoBase)
  if n &&& 1 ≠ 0 then
    pure 1
  else
    writeWords bus uIoBase (blockWords memory buf size)
    let n ← ioInputByte bus (ideRegStatus uIoBase)
    if n &&& 1 ≠ 0 then
      pure 1
    else
      let n ← bootIdeWaitNotBusy bus fuel uIoBase
      if n ≠ 0 then
        pure 1
      else
        let b ← ioInputByte bus (ideRegAltstatus uIoBase)
        if b &&& 0x01 ≠ 0 then pure 2 else pure 0

/-- The byte count register of an ATAPI drive. -/
def readByteCount : IdeProgram σ Nat := do
  let lsb ← ioInputByte bus (ideRegCylinderLsb uIoBase)
  let msb ← ioInputByte bus (ideRegCylinderMsb uIoBase)
  pure (lsb.toNat ||| msb.toNat <<< 8)

variable (tsaHarddiskInfo : Int → DriveInfo)

/-- Sends a command packet, and waits for its data unless it asked for none. Two
messages read the registers they print, the last argument first. -/
def bootIdeIssueAtapiPacketCommandAndPacket (nDriveIndex : Int)
    (pAtapiCommandPacket12Bytes : Memory) : IdeProgram σ Nat := do
  let uIoBase := (tsaHarddiskInfo nDriveIndex).mFwPortBase
  ioOutputByte bus (ideRegDrivehead uIoBase) (selectDrive nDriveIndex)
  let tsicp : IdeCommandParams :=
    { mBDrivehead := selectDrive nDriveIndex, mWCylinder := 2048 }
  let _ ← bootIdeWaitNotBusy bus fuel uIoBase
  if (← bootIdeIssueAtaCommand bus fuel uIoBase .atapiPacket tsicp) ≠ 0 then
    pure 1
  else if (← bootIdeWaitNotBusy bus fuel uIoBase) ≠ 0 then
    let _ ← ioInputByte bus (ideRegError uIoBase)
    pure 1
  else if (← bootIdeWriteAtapiData bus fuel uIoBase pAtapiCommandPacket12Bytes 0 12) ≠ 0 then
    pure 1
  else if pAtapiCommandPacket12Bytes 0 ≠ 0x1e then
    if (← bootIdeWaitDataReady bus uIoBase) ≠ 0 then
      let _ ← ioInputByte bus (ideRegError uIoBase)
      let _ ← ioInputByte bus (ideRegAltstatus uIoBase)
      pure 1
    else pure 0
  else pure 0

/-- A packet: zeros but for the given bytes. -/
def packet (fields : List (Nat × Byte)) : Memory :=
  fields.foldl (fun memory field => memory.set field.1 field.2) fun _ => 0

/-- Asks for the extra error information, and reads it to `pba` even when that fails. -/
def bootIdeAtapiAdditionalSenseCode (nDriveIndex : Int) (memory : Memory) (pba : Nat)
    (nLengthMaxReturn : Nat) : IdeProgram σ (Nat × Memory) := do
  let uIoBase := (tsaHarddiskInfo nDriveIndex).mFwPortBase
  if (tsaHarddiskInfo nDriveIndex).mFDriveExists = false then
    pure (4, memory)
  else
    let ba := packet [(0, 0x03), (4, 0xfe)]
    if (← bootIdeIssueAtapiPacketCommandAndPacket bus fuel tsaHarddiskInfo nDriveIndex ba) ≠ 0
    then
      pure (1, memory)
    else
      let count ← readByteCount bus uIoBase
      let nReturn := if count > nLengthMaxReturn then nLengthMaxReturn else count
      let (_, memory) ← bootIdeReadData bus uIoBase memory pba nReturn
      pure (nReturn, memory)

/-! ## Sectors -/

/-- Reads a block until it arrives: when it failed, the driver is brutal and tries again. -/
def readDataRetry (memory : Memory) (buf size : Nat) : IdeProgram σ Memory :=
  .loop (fun memory : Memory => do
    let (status, memory) ← bootIdeReadData bus uIoBase memory buf size
    if status = 0 then pure (.leave memory) else pure (.next memory)) fuel memory

/-- How a sector of a hard disk is addressed, for reading and for writing alike: the
command for a block that needs 48 bits, and that for one that does not. -/
def sectorCommand (info : DriveInfo) (nDriveIndex : Int) (block : UInt32)
    (extended plain : IdeCommand) : IdeCommand × IdeCommandParams :=
  if block ≥ 0x10000000 then
    (extended,
      { mBCountSector := 1
        mBCountSectorExt := 0
        mWCylinderExt := 0
        mBSectorExt := (block >>> 24 &&& 0xff).toUInt8
        mWCylinder := (block >>> 8 &&& 0xffff).toUInt16
        mBSector := (block &&& 0xff).toUInt8
        mBDrivehead := ideDhDrive nDriveIndex ||| ideDhLba })
  else if info.mBLbaMode = ideDhChs then
    let track := block / info.mWCountSectorsPerTrack.toUInt32
    (plain,
      { mBCountSector := 1
        mBSector := (1 + block % info.mWCountSectorsPerTrack.toUInt32).toUInt8
        mWCylinder := (track / info.mWCountHeads.toUInt32).toUInt16
        mBDrivehead := ideDhDefault ||| ideDhHead (track % info.mWCountHeads.toUInt32).toUInt8 |||
          ideDhDrive nDriveIndex ||| ideDhChs })
  else
    (plain,
      { mBCountSector := 1
        mBSector := (block &&& 0xff).toUInt8
        mWCylinder := (block >>> 8 &&& 0xffff).toUInt16
        mBDrivehead := ideDhDefault ||| (block >>> 24 &&& 0x0f).toUInt8 |||
          ideDhDrive nDriveIndex ||| ideDhLba })

/-- Interrupts off, and whether the drive has more than eight heads. -/
def setControl (info : DriveInfo) : IdeProgram σ Unit :=
  ioOutputByte bus (ideRegControl info.mFwPortBase) (if info.mWCountHeads > 8 then 0x0a else 0x02)

/-- The read of a hard disk sector, up to its data: the size of the block to be read, or
the value to return. -/
def startAtaSector (info : DriveInfo) (nDriveIndex : Int) (block : UInt32) :
    IdeProgram σ (Except Nat Nat) := do
  setControl bus info
  let (ideReadCommand, tsicp) := sectorCommand info nDriveIndex block .readExt .readMultiRetry
  if (← bootIdeIssueAtaCommand bus fuel info.mFwPortBase ideReadCommand tsicp) ≠ 0 then
    let _ ← ioInputByte bus (ideRegError info.mFwPortBase)
    pure (.error 1)
  else pure (.ok ideSectorSize)

/-- A sticky error is cleared by asking for it, into the buffer `ba` of the packet. The
registers it is recognised by are not those of the drive: the masks are applied to the
ports. -/
def clearAttention (nDriveIndex : Int) (ba : Memory) : IdeProgram σ Unit := do
  let uIoBase := (tsaHarddiskInfo nDriveIndex).mFwPortBase
  let _ ← ioInputByte bus (ideRegStatus uIoBase)
  let sticky ← ioInputByte bus (ideRegStatus uIoBase &&& 1)
  if sticky ≠ 0 then
    let attention ← ioInputByte bus (ideRegError uIoBase &&& 0x20)
    if attention ≠ 0 then
      let _ ← bootIdeAtapiAdditionalSenseCode bus fuel tsaHarddiskInfo nDriveIndex ba 0 2048
      pure ()
    else pure ()
  else pure ()

/-- The read of a CD or DVD sector, up to its data. The drive says how many bytes it
has. -/
def startAtapiSector (nDriveIndex : Int) (ba : Memory) (block : UInt32) (nBytes : Int32) :
    IdeProgram σ (Except Nat Nat) := do
  let uIoBase := (tsaHarddiskInfo nDriveIndex).mFwPortBase
  clearAttention bus fuel tsaHarddiskInfo nDriveIndex ba
  let _ ← bootIdeWaitNotBusy bus fuel uIoBase
  if nBytes < 2048 then
    pure (.error 1)
  else
    let ba := packet [(0, 0x28), (2, (block >>> 24).toUInt8), (3, (block >>> 16).toUInt8),
      (4, (block >>> 8).toUInt8), (5, block.toUInt8), (7, 0), (8, 1)]
    if (← bootIdeIssueAtapiPacketCommandAndPacket bus fuel tsaHarddiskInfo nDriveIndex ba) ≠ 0
    then
      pure (.error 1)
    else
      let count ← readByteCount bus uIoBase
      pure (.ok (if count > 2048 then 2048 else count))

/-- The first part of `BootIdeReadSector`. `stack` is what its buffers happen to hold. -/
def startSector (stack : Memory) (nDriveIndex : Int) (block : UInt32) (nBytes : Int32) :
    IdeProgram σ (Except Nat Nat) := do
  let info := tsaHarddiskInfo nDriveIndex
  if info.mFDriveExists = false then
    pure (.error 4)
  else
    ioOutputByte bus (ideRegDrivehead info.mFwPortBase) (selectDrive nDriveIndex)
    if nDriveIndex < 0 ∨ nDriveIndex ≥ 2 ∨ info.mFDriveExists = false then
      pure (.error 1)
    else if info.mFAtapi then
      startAtapiSector bus fuel tsaHarddiskInfo nDriveIndex stack block nBytes
    else
      startAtaSector bus fuel info nDriveIndex block

/-- `BootIdeReadSector`: the return value, and memory with what was read at `pbBuffer`. A
part of a hard disk sector is read through `baBufferSector`. -/
def bootIdeReadSector (stack : Memory) (nDriveIndex : Int) (memory : Memory) (pbBuffer : Nat)
    (block : UInt32) (byteOffset nBytes : Int32) : IdeProgram σ (Nat × Memory) := do
  let info := tsaHarddiskInfo nDriveIndex
  match ← startSector bus fuel tsaHarddiskInfo stack nDriveIndex block nBytes with
  | .error status => pure (status, memory)
  | .ok size =>
    if info.mFAtapi = false ∧ nBytes ≠ 512 then
      let baBufferSector ← readDataRetry bus fuel info.mFwPortBase stack 0 size
      pure (0, memory.memcpy pbBuffer baBufferSector byteOffset.toUInt32.toNat
        nBytes.toUInt32.toNat)
    else
      let memory ← readDataRetry bus fuel info.mFwPortBase memory pbBuffer size
      pure (0, memory)

/-- `BootIdeWriteSector`, of the block at `pbBuffer`. -/
def bootIdeWriteSector (nDriveIndex : Int) (memory : Memory) (pbBuffer : Nat) (block : UInt32) :
    IdeProgram σ Nat := do
  let info := tsaHarddiskInfo nDriveIndex
  if info.mFDriveExists = false then
    pure 4
  else
    ioOutputByte bus (ideRegDrivehead info.mFwPortBase) (selectDrive nDriveIndex)
    if nDriveIndex < 0 ∨ nDriveIndex ≥ 2 ∨ info.mFDriveExists = false then
      pure 1
    else
      setControl bus info
      let (ideWriteCommand, tsicp) :=
        sectorCommand info nDriveIndex block .writeMultiRetry .writeMultiRetry
      if (← bootIdeIssueAtaCommand bus fuel info.mFwPortBase ideWriteCommand tsicp) ≠ 0 then
        let _ ← ioInputByte bus (ideRegError info.mFwPortBase)
        pure 1
      else
        bootIdeWriteData bus fuel info.mFwPortBase memory pbBuffer ideSectorSize

end Driver

/-- A drive of 2^28 sectors and a few more, as both drives. -/
def largeDrive : Int → DriveInfo := fun _ =>
  { mFwPortBase := 0x1F0
    mWCountHeads := 16
    mWCountCylinders := 16383
    mWCountSectorsPerTrack := 63
    mDwCountSectorsTotal := 0x10000010
    mBLbaMode := ideDhLba
    mFDriveExists := true
    mFAtapi := false }

end Cromwell.Ide
