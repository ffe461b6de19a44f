import Cromwell.Crypt.Hmac
import Cromwell.Crypt.Rc4
import Cromwell.Std.Loop

/-!
# The hard disk key

`BootHddKeyGenerateEepromKeyData` decrypts the security section of the EEPROM
with the key of each console version until the hash stored in front of it
confirms the result. `CalculateDrivePassword` makes the drive password from the
hard disk key found there and the model and serial number of the drive.
-/

namespace Cromwell.Ide

open Cromwell.Std Cromwell.Crypt

/-- The first `0x30` bytes of the EEPROM: a hash, then an encrypted confounder,
hard disk key and region. -/
abbrev SecuritySection := Vector Byte 0x30

variable (compress : Compress) (stack : SHA1Context)

/-- What is left in the caller's buffer, and the version returned. -/
structure HddKeyResult where
  version : Nat
  pbResult : List Byte
  deriving Repr, DecidableEq

/-- The working copy of the section after the decryption for one version. `stack`
is what an uninitialised hash context happens to hold. -/
def decryptCopy (pbEepromData : SecuritySection) (counter : Nat) : List Byte :=
  let baEepromDataLocalCopy := pbEepromData.toList
  let baKeyHash := hmacHddCalculation compress stack counter (Vector.replicate 20 0)
    [baEepromDataLocalCopy.take 20]
  let rc4Key := rc4PrepareKey baKeyHash.toList
  let (confounder, rc4Key) := rc4Crypt ((baEepromDataLocalCopy.drop 20).take 8) rc4Key
  let (data, _) := rc4Crypt ((baEepromDataLocalCopy.drop 28).take 20) rc4Key
  baEepromDataLocalCopy.take 20 ++ confounder ++ data

/-- One pass of the loop over the versions. It is left with the version and the
decrypted copy when the hash confirms it; the next pass starts from a new copy. -/
def tryVersion (pbEepromData : SecuritySection) (counter : Nat) (_ : List Byte) :
    Pass (List Byte) (Nat × List Byte) :=
  let baEepromDataLocalCopy := decryptCopy compress stack pbEepromData counter
  let baDataHashConfirm := hmacHddCalculation compress stack counter (Vector.replicate 20 0)
    [(baEepromDataLocalCopy.drop 20).take 8, (baEepromDataLocalCopy.drop 28).take 20]
  if baEepromDataLocalCopy.take 20 = baDataHashConfirm.toList then
    .leave (counter, baEepromDataLocalCopy)
  else .next baEepromDataLocalCopy

/-- `BootHddKeyGenerateEepromKeyData`. The key is copied out even when no version
was confirmed. -/
def bootHddKeyGenerateEepromKeyData (pbEepromData : SecuritySection) : HddKeyResult :=
  match forLoop (tryVersion compress stack pbEepromData) 4 9 [] with
  | .leave (version, baEepromDataLocalCopy) =>
    { version, pbResult := (baEepromDataLocalCopy.drop 28).take 16 }
  | .next baEepromDataLocalCopy =>
    { version := 0, pbResult := (baEepromDataLocalCopy.drop 28).take 16 }

/-- What `CalculateDrivePassword` reads of `tsHarddiskInfo`. The lengths are those
`copy_swap_trim` returned for the two strings. -/
structure TsHarddiskInfo where
  mSzIdentityModelNumber : Vector Byte 40
  mSzSerial : Vector Byte 20
  mLength : Nat
  sLength : Nat
  mLength_le : mLength ≤ 40
  sLength_le : sLength ≤ 20

/-- The model number without its padding. -/
def TsHarddiskInfo.model (drive : TsHarddiskInfo) : List Byte :=
  drive.mSzIdentityModelNumber.toList.take drive.mLength

/-- The serial number without its padding. -/
def TsHarddiskInfo.serial (drive : TsHarddiskInfo) : List Byte :=
  drive.mSzSerial.toList.take drive.sLength

/-- The security section of the EEPROM image in RAM. -/
def securitySection (eeprom : Memory) : SecuritySection :=
  Vector.ofFn fun offset : Fin 0x30 => eeprom offset

/-- `CalculateDrivePassword`: the return value, and memory with the password at `key`. -/
def calculateDrivePassword (eeprom : Memory) (tsaHarddiskInfo : Fin 2 → TsHarddiskInfo)
    (driveId : Fin 2) (memory : Memory) (key : Nat) : Nat × Memory :=
  let result := bootHddKeyGenerateEepromKeyData compress stack (securitySection eeprom)
  let password := hmacSHA1 compress stack (Vector.replicate 20 0) result.pbResult
    (tsaHarddiskInfo driveId).model (tsaHarddiskInfo driveId).serial
  if result.version = 0 then (1, memory) else (0, memory.store key password.toList)

end Cromwell.Ide
