import Cromwell.Flash.BootFlash

/-!
# Identifying and reflashing the flash

`BootFlashGetDescriptor` finds out which chip is fitted and which conventions it
follows. `BootReflashAndReset` checks that the region fits the chip, and then
erases and programs it until both succeed.
-/

namespace Cromwell.Flash

open Cromwell.Std

/-- `KNOWN_FLASH_TYPE`. -/
structure KnownFlashType where
  bManufacturerId : Byte
  bDeviceId : Byte
  szFlashDescription : String
  dwLengthInBytes : UInt32
  deriving Repr, DecidableEq

/-- `aknownflashtypesDefault`. -/
def aknownflashtypesDefault : List KnownFlashType :=
  [⟨0x01, 0xa4, "AMD - Am29F040B", 0x80000⟩,
    ⟨0x01, 0xad, "AMD - Am29F016", 0x200000⟩,
    ⟨0x01, 0xda, "AMD - Am29LV800B", 0x100000⟩,
    ⟨0x01, 0xd5, "AMD - Am29F080B", 0x100000⟩,
    ⟨0x04, 0xd5, "Fujitsu - MBM29F080A", 0x100000⟩,
    ⟨0x20, 0xb0, "ST - M29F002BT", 0x40000⟩,
    ⟨0x20, 0xf1, "ST - M29F080A", 0x100000⟩,
    ⟨0x89, 0xa6, "Sharp LHF08CH1", 0x100000⟩,
    ⟨0xad, 0xb0, "Hynix - HY29F002TT-90", 0x40000⟩,
    ⟨0xad, 0xd5, "Hynix - HY29F080", 0x100000⟩,
    ⟨0xbf, 0x61, "SST SST49LF020", 0x40000⟩,
    ⟨0xc2, 0x36, "Macronix - MX29F022NTPC", 0x40000⟩,
    ⟨0xda, 0x0b, "Winbond - W49F002U", 0x40000⟩,
    ⟨0xda, 0x8c, "Winbond W49F020", 0x40000⟩,
    ⟨0, 0, "", 0⟩]

/-- The first entry with the given IDs, in front of the terminator. -/
def knownFlashType (pkft : List KnownFlashType) (bManufacturerId bDeviceId : Byte) :
    Option KnownFlashType :=
  (pkft.takeWhile fun entry => entry.bManufacturerId ≠ 0).find? fun entry =>
    entry.bManufacturerId = bManufacturerId ∧ entry.bDeviceId = bDeviceId

section Driver

variable {σ : Type} (bus : FlashBus σ)

/-! ## Identification -/

/-- What identification by one convention finds. -/
structure Identification where
  bManufacturerId : Byte
  bDeviceId : Byte
  fDetectedUsing28xxxConventions : Bool
  deriving Repr, DecidableEq

/-- The 28xxx way to read the IDs. -/
def identify28xxx : Driver σ Identification := do
  writeFlash bus 0x5555 0xff
  writeFlash bus 0x5555 0x90
  let bManufacturerId ← readFlash bus 0
  writeFlash bus 0x5555 0x90
  let bDeviceId ← readFlash bus 1
  writeFlash bus 0x5555 0xff
  pure { bManufacturerId, bDeviceId, fDetectedUsing28xxxConventions := true }

/-- The 29xxx way to read the IDs. -/
def identify29xxx : Driver σ Identification := do
  writeFlash bus 0x5555 0xf0
  unlock bus
  writeFlash bus 0x5555 0xf0
  unlock bus
  writeFlash bus 0x5555 0x90
  let bManufacturerId ← readFlash bus 0
  let bDeviceId ← readFlash bus 1
  writeFlash bus 0x5555 0xf0
  pure { bManufacturerId, bDeviceId, fDetectedUsing28xxxConventions := false }

/-- Whether an identification differs from the first two bytes of normal mode. For
the second byte the source compares the flash with itself, not the device ID. -/
def differsFromNormalMode (normal0 normal1 bManufacturerId : Byte) : Driver σ Bool :=
  if normal0 ≠ bManufacturerId then
    pure true
  else do
    let again ← readFlash bus 1
    pure (normal1 ≠ again)

/-- Tries the 28xxx method, then the 29xxx method if the first gave nothing. -/
def identify (normal0 normal1 : Byte) : Driver σ Identification := do
  let first ← identify28xxx bus
  if ← differsFromNormalMode bus normal0 normal1 first.bManufacturerId then
    pure first
  else
    let second ← identify29xxx bus
    let _ ← differsFromNormalMode bus normal0 normal1 second.bManufacturerId
    pure second

/-- The lock bits of a 28xxx chip: whether the master lock is set, and the
description of the locks. -/
def readLocks (fuel : Nat) (dwLengthInBytes : UInt32) : Driver σ (Bool × String) := do
  writeFlash bus 0x5555 0x90
  let master ← readFlash bus 3
  let locks ← Program.loop (fun ((n, locks) : UInt32 × String) =>
    if n < dwLengthInBytes then do
      writeFlash bus 0x5555 0x90
      let lock ← readFlash bus (n ||| 0x0002)
      pure (.next (n + 0x10000, locks ++ toString (lock &&& 1).toNat))
    else
      pure (.leave locks)) fuel
    (0, (if master ≠ 0 then "Master Lock SET  " else "") ++ "Block Locks: ")
  writeFlash bus 0x5555 0x50
  writeFlash bus 0x5555 0xff
  pure (master ≠ 0, locks ++ "  ")

/-- Describes a chip that is in the table. -/
def describeKnown (fuel : Nat) (pof : ObjectFlash) (entry : KnownFlashType) :
    Driver σ ObjectFlash :=
  let szFlashDescription := entry.szFlashDescription ++ " (" ++
    toString (entry.dwLengthInBytes / 1024).toNat ++ "K)"
  let pof := { pof with szFlashDescription, dwLengthInBytes := entry.dwLengthInBytes }
  if pof.fDetectedUsing28xxxConventions then do
    let (masterLock, locks) ← readLocks bus fuel entry.dwLengthInBytes
    pure { pof with
      szFlashDescription := szFlashDescription ++ locks
      fIsBelievedCapableOfWriteAndErase := !masterLock }
  else
    pure pof

/-- Describes a chip that is not in the table. -/
def describeUnknown (pof : ObjectFlash) (normal0 normal1 : Byte) : Driver σ ObjectFlash := do
  let differs ← differsFromNormalMode bus normal0 normal1 pof.bManufacturerId
  pure { pof with
    szFlashDescription := (if differs then "manf=0x" else "Read Only??? manf=0x") ++
      hexByte pof.bManufacturerId ++ ", dev=0x" ++ hexByte pof.bDeviceId }

/-- `BootFlashGetDescriptor`: whether the chip is known, and the object filled in. -/
def bootFlashGetDescriptor (fuel : Nat) (pof : ObjectFlash) (pkft : List KnownFlashType) :
    Driver σ (Bool × ObjectFlash) := do
  setErrorInfo ""
  let normal0 ← readFlash bus 0
  let normal1 ← readFlash bus 1
  let ids ← identify bus normal0 normal1
  let pof := { pof with
    fIsBelievedCapableOfWriteAndErase := true
    bManufacturerId := ids.bManufacturerId
    bDeviceId := ids.bDeviceId
    fDetectedUsing28xxxConventions := ids.fDetectedUsing28xxxConventions }
  match knownFlashType pkft pof.bManufacturerId pof.bDeviceId with
  | some entry =>
    let pof ← describeKnown bus fuel pof entry
    pure (true, pof)
  | none =>
    let pof ← describeUnknown bus pof normal0 normal1
    pure (false, pof)

/-! ## Reflashing -/

/-- `BootFlashUserInterface` draws a progress bar and never aborts. -/
def bootFlashUserInterface : CallbackFlash := fun _ => true

/-- One pass of the loop that reflashes: left once the erase and the programming
have both succeeded. -/
def reflashPass (fuel : Nat) (pof : ObjectFlash) (pbNewData : Memory) (_ : Unit) :
    Driver σ (Pass Unit Unit) := do
  if ← bootFlashEraseMinimalRegion bus fuel pof then
    if ← bootFlashProgram bus fuel pof pbNewData then
      pure (.leave ())
    else
      pure (.next ())
  else
    pure (.next ())

/-- The object before identification fills it in. -/
def freshObject (dwStartOffset dwLength : UInt32) : ObjectFlash where
  bManufacturerId := 0
  bDeviceId := 0
  szFlashDescription := ""
  dwLengthInBytes := 0
  dwStartOffset := dwStartOffset
  dwLengthUsedArea := dwLength
  pcallbackFlash := some bootFlashUserInterface
  fDetectedUsing28xxxConventions := false
  fIsBelievedCapableOfWriteAndErase := false

/-- `BootReflashAndReset`. -/
def bootReflashAndReset (fuel : Nat) (pbNewData : Memory) (dwStartOffset dwLength : UInt32) :
    Driver σ Nat := do
  let (known, pof) ← bootFlashGetDescriptor bus fuel (freshObject dwStartOffset dwLength)
    aknownflashtypesDefault
  if ¬ known then
    pure 1
  else if ¬ pof.fIsBelievedCapableOfWriteAndErase then
    pure 2
  else if pof.dwLengthInBytes < dwStartOffset + dwLength then
    pure 3
  else
    Program.loop (reflashPass bus fuel pof pbNewData) fuel ()
    pure 0

end Driver

end Cromwell.Flash
