import Cromwell.Ide.Commands

/-!
# Changing the security settings of a drive

`DriveSecurityChange` sends a password with a security command. To lock a drive
it first sends the master password, with which the drive can be unlocked should
the other one be lost, and goes on whatever the drive makes of that block. At the
end it reads the IDENTIFY block, in which the drive reports its security state,
and does not look at it.
-/

namespace Cromwell.Ide

open Cromwell.Std

/-- `master_password`, without the zero that ends it. -/
def masterPassword : List Byte := "XBOXLINUX".toList.map fun c => UInt8.ofNat c.toNat

section Driver

variable {σ : Type} (bus : PortBus σ) (fuel : Nat) (uIoBase : UInt16)

/-- The block with the master password; `stack` is what `ide_cmd_data` held before. -/
def masterData (stack : Memory) : Memory :=
  let ideCmdData := stack.memset 0 0x00 512
  (ideCmdData.set 0 (ideCmdData 0 ||| 0x01)).store 2 masterPassword

/-- The block with the password, which is only 20 bytes long. -/
def userData (ideCmdData : Memory) (password : Vector Byte 20) : Memory :=
  (ideCmdData.memset 0 0x00 512).store 2 password.toList

/-- Sends a block with a security command. The result is absent if the drive refuses the
command, and otherwise that of the last wait. -/
def sendBlock (ideCmd : IdeCommand) (driveId : Int) (ideCmdData : Memory) :
    IdeProgram σ (Option Byte) := do
  let tsicp1 : IdeCommandParams := { mBDrivehead := selectDrive driveId }
  if (← bootIdeIssueAtaCommand bus fuel uIoBase ideCmd tsicp1) ≠ 0 then
    pure none
  else
    let _ ← bootIdeWaitDataReady bus uIoBase
    let _ ← bootIdeWriteData bus fuel uIoBase ideCmdData 0 ideSectorSize
    let n ← bootIdeWaitNotBusy bus fuel uIoBase
    pure (some n)

/-- The first thing done to lock a drive: what is left in `ide_cmd_data`, unless the drive
refuses the command. The result of the last wait is dropped. -/
def setMasterPassword (ideCmd : IdeCommand) (driveId : Int) (stack : Memory) :
    IdeProgram σ (Option Memory) :=
  if ideCmd = .securitySetPassword then do
    match ← sendBlock bus fuel uIoBase ideCmd driveId (masterData stack) with
    | none => pure none
    | some _ => pure (some (masterData stack))
  else pure (some stack)

/-- Reads the IDENTIFY block into `ba`, and does not check what is in it. -/
def readIdentify (driveId : Int) (ba : Memory) : IdeProgram σ Nat := do
  let tsicp : IdeCommandParams := { mBDrivehead := selectDrive driveId }
  if (← bootIdeIssueAtaCommand bus fuel uIoBase .identify tsicp) ≠ 0 then
    pure 1
  else
    let _ ← bootIdeWaitDataReady bus uIoBase
    let (status, _) ← bootIdeReadData bus uIoBase ba 0 ideSectorSize
    if status ≠ 0 then pure 1 else pure 0

/-- `DriveSecurityChange`. -/
def driveSecurityChange (stack : Memory) (driveId : Int) (ideCmd : IdeCommand)
    (password : Vector Byte 20) : IdeProgram σ Nat := do
  if (← bootIdeWaitNotBusy bus fuel uIoBase) ≠ 0 then
    pure 1
  else
    match ← setMasterPassword bus fuel uIoBase ideCmd driveId stack with
    | none => pure 1
    | some ideCmdData =>
      match ← sendBlock bus fuel uIoBase ideCmd driveId (userData ideCmdData password) with
      | none => pure 1
      | some n => if n ≠ 0 then pure 1 else readIdentify bus fuel uIoBase driveId stack

end Driver

end Cromwell.Ide
