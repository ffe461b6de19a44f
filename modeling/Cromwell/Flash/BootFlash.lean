import Cromwell.Std.Memory
import Cromwell.Std.Program

/-!
# Erasing and programming the flash

`BootFlashEraseMinimalRegion` and `BootFlashProgram` drive a chip through its
memory-mapped bytes alone, by the 28xxx or by the 29xxx conventions. Nothing is
assumed of the chip here: a `FlashBus` may answer a read with any byte, and the
polling loops may not end. Progress is told to a callback, whose answer can
abort the work.
-/

namespace Cromwell.Flash

open Cromwell.Std

/-- A chip as the processor sees it. Reads change its state as well as writes do. -/
structure FlashBus (σ : Type) where
  read : σ → (address : Nat) → Byte × σ
  write : σ → (address : Nat) → Byte → σ

/-- `ENUM_EVENTS`. -/
inductive EnumEvents where
  | eraseStart | eraseUpdate | eraseEnd | eraseError
  | programStart | programUpdate | programEnd | programError
  | verifyStart | verifyUpdate | verifyEnd | verifyError
  deriving Repr, DecidableEq

/-- One call of the callback. -/
structure Event where
  ee : EnumEvents
  dwPos : UInt32
  dwExtent : UInt32
  deriving Repr, DecidableEq

/-- `CALLBACK_FLASH`: its answer may depend on everything it was told so far,
the new event last. -/
abbrev CallbackFlash := List Event → Bool

/-- `OBJECT_FLASH`, less the bus and `m_szAdditionalErrorInfo`, the one member the
passes write. -/
structure ObjectFlash where
  bManufacturerId : Byte
  bDeviceId : Byte
  szFlashDescription : String
  dwLengthInBytes : UInt32
  dwStartOffset : UInt32
  dwLengthUsedArea : UInt32
  pcallbackFlash : Option CallbackFlash
  fDetectedUsing28xxxConventions : Bool
  fIsBelievedCapableOfWriteAndErase : Bool

/-- What the driver changes as it runs. -/
structure FlashState (σ : Type) where
  flash : σ
  events : List Event
  szAdditionalErrorInfo : String

/-! ## Texts -/

/-- `%x`. -/
def hexadecimal (value : UInt32) : String := String.ofList (Nat.toDigits 16 value.toNat)

/-- `%02X`. -/
def hexByte (value : Byte) : String :=
  (String.ofList [Nat.digitChar (value.toNat / 16), Nat.digitChar (value.toNat % 16)]).toUpper

section Driver

variable {σ : Type} (bus : FlashBus σ)

/-- A driver step. -/
abbrev Driver (σ : Type) (α : Type) := Program (FlashState σ) α

/-! ## Accesses and events -/

/-- A read of `m_pbMemoryMappedStartAddress`. -/
def readFlash (address : UInt32) : Driver σ Byte :=
  .update fun state =>
    let (value, flash) := bus.read state.flash address.toNat
    (value, { state with flash })

/-- A write of `m_pbMemoryMappedStartAddress`. -/
def writeFlash (address : UInt32) (value : Byte) : Driver σ Unit :=
  .update fun state => ((), { state with flash := bus.write state.flash address.toNat value })

/-- Sets `m_szAdditionalErrorInfo`. -/
def setErrorInfo (text : String) : Driver σ Unit :=
  .update fun state => ((), { state with szAdditionalErrorInfo := text })

/-- Calls the callback; without one the work always goes on. -/
def deliver (pof : ObjectFlash) (ee : EnumEvents) (dwPos dwExtent : UInt32) : Driver σ Bool :=
  match pof.pcallbackFlash with
  | none => pure true
  | some pcallbackFlash => .update fun state =>
    let events := state.events ++ [{ ee, dwPos, dwExtent }]
    (pcallbackFlash events, { state with events })

/-- Reports an error at `dw` with the byte read there, then the end of the work. -/
def deliverError (pof : ObjectFlash) (dw : UInt32) (ee eeEnd : EnumEvents) (dwPos : UInt32)
    (dwExtent : Byte → UInt32) : Driver σ Unit :=
  match pof.pcallbackFlash with
  | none => pure ()
  | some _ => do
    let b ← readFlash bus dw
    let _ ← deliver pof ee dwPos (dwExtent b)
    let _ ← deliver pof eeEnd 0 0
    pure ()

/-- The callback is told about the progress every 1K addresses, and may abort. -/
def deliverUpdate (pof : ObjectFlash) (dw : UInt32) (ee : EnumEvents) (dwPos : UInt32)
    (aborted : String) : Driver σ Bool :=
  if dw &&& 0x3ff = 0 then do
    if ← deliver pof ee dwPos pof.dwLengthUsedArea then
      pure true
    else
      setErrorInfo aborted
      pure false
  else
    pure true

/-! ## The 29xxx conventions -/

/-- The unlock cycles in front of every command. -/
def unlock : Driver σ Unit := do
  writeFlash bus 0x5555 0xaa
  writeFlash bus 0x2aaa 0x55

/-- The chip leaves a command it does not know. -/
def resetCommand : Driver σ Unit := do
  unlock bus
  writeFlash bus 0x5555 0xf0

/-- The erase command with the given last cycle. -/
def eraseCommand (dw : UInt32) (code : Byte) : Driver σ Unit := do
  unlock bus
  writeFlash bus 0x5555 0x80
  unlock bus
  writeFlash bus dw code

/-- Waits until bit 6 no longer toggles on each read, and counts the toggles. -/
def pollToggle (fuel : Nat) (dw : UInt32) : Driver σ UInt32 := do
  let b ← readFlash bus dw
  Program.loop (fun ((b, dwCountTries) : Byte × UInt32) => do
    let again ← readFlash bus dw
    if again &&& 0x40 ≠ b &&& 0x40 then
      pure (.next (b ^^^ 0x40, dwCountTries + 1))
    else
      pure (.leave dwCountTries)) fuel (b, 0)

/-- Erases the block of `dw` with the code `0x50`; where the chip never enters its
busy mode, with `0x30`. -/
def eraseBlock (fuel : Nat) (dw : UInt32) : Driver σ UInt32 := do
  eraseCommand bus dw 0x50
  let dwCountTries ← pollToggle bus fuel dw
  if dwCountTries < 3 then
    resetCommand bus
    eraseCommand bus dw 0x30
    pollToggle bus fuel dw
  else
    pure dwCountTries

/-- The erase of one round. Where block erases did not work at all, and the whole
chip is being reprogrammed, the chip is erased. -/
def erase29xxx (fuel : Nat) (pof : ObjectFlash) (dw : UInt32) (nCountEraseRetryIn4KBlock : Int) :
    Driver σ Unit := do
  let dwCountTries ← eraseBlock bus fuel dw
  if dwCountTries < 3 ∧ nCountEraseRetryIn4KBlock < 2 ∧ pof.dwStartOffset = 0 ∧
      pof.dwLengthUsedArea = pof.dwLengthInBytes then
    resetCommand bus
    eraseCommand bus 0x5555 0x10
    let _ ← pollToggle bus fuel dw
    pure ()
  else
    pure ()

/-- The programming of one byte. -/
def program29xxx (fuel : Nat) (dw : UInt32) (value : Byte) : Driver σ Unit := do
  unlock bus
  writeFlash bus 0x5555 0xa0
  writeFlash bus dw value
  let _ ← pollToggle bus fuel dw
  pure ()

/-! ## The 28xxx conventions -/

/-- The erase of one round, with the chip status it ended in. The chip does not
go busy at once, hence the minimal number of reads. -/
def erase28xxx (fuel : Nat) (dw : UInt32) : Driver σ Byte := do
  writeFlash bus 0x5555 0x50
  writeFlash bus dw 0x20
  writeFlash bus dw 0xd0
  let b ← Program.loop (fun ((b, nCountMinSpin) : Byte × Nat) =>
    if b &&& 0x80 = 0 ∨ nCountMinSpin ≠ 0 then do
      let b ← readFlash bus dw
      pure (.next (b, nCountMinSpin - 1))
    else
      pure (.leave b)) fuel (0x00, 0x100)
  writeFlash bus 0x5555 0x50
  writeFlash bus 0x5555 0xff
  pure b

/-- The programming of one byte, with the chip status it ended in and what was
left of `dwTimeToLive`, which is 0 after a time-out. -/
def program28xxx (fuel : Nat) (dw : UInt32) (value : Byte) : Driver σ (Byte × UInt32) := do
  writeFlash bus dw 0x40
  writeFlash bus dw value
  let (b, dwTimeToLive) ← Program.loop
    (fun ((b, dwTimeToLive, nCountMinSpin) : Byte × UInt32 × Nat) =>
      let dwTimeToLive := if b &&& 0x80 = 0 then dwTimeToLive - 1 else dwTimeToLive
      if (b &&& 0x80 = 0 ∧ dwTimeToLive ≠ 0) ∨ nCountMinSpin ≠ 0 then do
        let b ← readFlash bus dw
        pure (.next (b, dwTimeToLive, nCountMinSpin - 1))
      else
        pure (.leave (b, dwTimeToLive))) fuel (0x0, 0xfffff, 2)
  writeFlash bus dw 0x50
  writeFlash bus dw 0xff
  pure (b, dwTimeToLive)

/-! ## Erasing -/

/-- The locals of `BootFlashEraseMinimalRegion`. -/
structure EraseLocals where
  dw : UInt32
  dwLen : UInt32
  dwLastEraseAddress : UInt32
  nCountEraseRetryIn4KBlock : Int
  deriving Repr, DecidableEq

/-- Counts a retry in the 4K block of `dw`, or starts counting in a new one. -/
def EraseLocals.countRetry (locals : EraseLocals) : EraseLocals :=
  if locals.dwLastEraseAddress &&& 0xfffff000 = locals.dw &&& 0xfffff000 then
    { locals with nCountEraseRetryIn4KBlock := locals.nCountEraseRetryIn4KBlock - 1 }
  else
    { locals with nCountEraseRetryIn4KBlock := 4, dwLastEraseAddress := locals.dw }

theorem EraseLocals.countRetry_dw (locals : EraseLocals) : locals.countRetry.dw = locals.dw := by
  unfold countRetry
  split <;> rfl

theorem EraseLocals.countRetry_dwLen (locals : EraseLocals) :
    locals.countRetry.dwLen = locals.dwLen := by
  unfold countRetry
  split <;> rfl

/-- The byte at `dw` does not read `0xff`: one more erase, unless the tries in its
4K block have run out. -/
def eraseRound (fuel : Nat) (pof : ObjectFlash) (current : EraseLocals) :
    Driver σ (Pass EraseLocals Bool) :=
  let locals := current.countRetry
  if locals.nCountEraseRetryIn4KBlock = 0 then do
    deliverError bus pof locals.dw .eraseError .eraseEnd (locals.dw - pof.dwStartOffset)
      UInt8.toUInt32
    let b ← readFlash bus locals.dw
    setErrorInfo ("Erase failed for block at +0x" ++ hexadecimal locals.dw ++ ", reads as 0x" ++
      hexByte b)
    pure (.leave false)
  else if pof.fDetectedUsing28xxxConventions then do
    let b ← erase28xxx bus fuel locals.dw
    if b &&& 0x7e ≠ 0 then
      deliverError bus pof locals.dw .eraseError .eraseEnd (locals.dw - pof.dwStartOffset)
        UInt8.toUInt32
      setErrorInfo (if b &&& 8 ≠ 0 then
        "This chip requires +5V on pin 11 (Vpp).  See the README."
      else
        "Chip Status after Erase: 0x" ++ hexByte b)
      pure (.leave false)
    else
      pure (.next locals)
  else do
    erase29xxx bus fuel pof locals.dw locals.nCountEraseRetryIn4KBlock
    pure (.next locals)

/-- The byte at `dw` is erased: on to the next one. -/
def eraseAdvance (pof : ObjectFlash) (locals : EraseLocals) : Driver σ (Pass EraseLocals Bool) := do
  if ← deliverUpdate pof locals.dw .eraseUpdate (locals.dw - pof.dwStartOffset) "Erase Aborted" then
    pure (.next { locals with dw := locals.dw + 1, dwLen := locals.dwLen - 1 })
  else
    pure (.leave false)

/-- One pass of the erase loop, which is left with `true` at its end and with
`false` by a `return false`. -/
def erasePass (fuel : Nat) (pof : ObjectFlash) (locals : EraseLocals) :
    Driver σ (Pass EraseLocals Bool) :=
  if locals.dwLen = 0 then
    pure (.leave true)
  else do
    let b ← readFlash bus locals.dw
    if b ≠ 0xff then
      eraseRound bus fuel pof locals
    else
      eraseAdvance pof locals

/-- The erase loop from the start of the region on. -/
def eraseLoop (fuel : Nat) (pof : ObjectFlash) : Driver σ Bool :=
  Program.loop (erasePass bus fuel pof) fuel
    { dw := pof.dwStartOffset
      dwLen := pof.dwLengthUsedArea
      dwLastEraseAddress := 0xffffffff
      nCountEraseRetryIn4KBlock := 4 }

/-- `BootFlashEraseMinimalRegion`. -/
def bootFlashEraseMinimalRegion (fuel : Nat) (pof : ObjectFlash) : Driver σ Bool := do
  setErrorInfo ""
  if ← deliver pof .eraseStart 0 0 then
    if ← eraseLoop bus fuel pof then
      deliver pof .eraseEnd 0 0
    else
      pure false
  else
    setErrorInfo "Erase Aborted"
    pure false

/-! ## Programming -/

/-- The locals of the program loop of `BootFlashProgram`. -/
structure ProgramLocals where
  dw : UInt32
  dwLen : UInt32
  dwSrc : UInt32
  dwLastProgramAddress : UInt32
  nCountProgramRetries : Int
  deriving Repr, DecidableEq

/-- Counts a retry at the address `dw`, or starts counting at a new one. -/
def ProgramLocals.countRetry (locals : ProgramLocals) : ProgramLocals :=
  if locals.dwLastProgramAddress = locals.dw then
    { locals with nCountProgramRetries := locals.nCountProgramRetries - 1 }
  else
    { locals with nCountProgramRetries := 4, dwLastProgramAddress := locals.dw }

theorem ProgramLocals.countRetry_dw (locals : ProgramLocals) :
    locals.countRetry.dw = locals.dw := by
  unfold countRetry
  split <;> rfl

theorem ProgramLocals.countRetry_dwLen (locals : ProgramLocals) :
    locals.countRetry.dwLen = locals.dwLen := by
  unfold countRetry
  split <;> rfl

theorem ProgramLocals.countRetry_dwSrc (locals : ProgramLocals) :
    locals.countRetry.dwSrc = locals.dwSrc := by
  unfold countRetry
  split <;> rfl

/-- The extent of a program or verify error: the byte written above the byte read. -/
def writtenAndRead (written read : Byte) : UInt32 := (written.toUInt32 <<< 8) ||| read.toUInt32

/-- What went wrong in a byte the 28xxx conventions could not program. -/
def programErrorText (b : Byte) (dwTimeToLive : UInt32) : String :=
  if b &&& 8 ≠ 0 then
    "This chip requires +5V on pin 11 (Vpp).  See the README."
  else if dwTimeToLive ≠ 0 then
    "Chip Status after Program: 0x" ++ hexByte b
  else
    "Chip Status after TIMED-OUT Program: 0x" ++ hexByte b

/-- The byte at `dw` differs from the data: program it, unless its tries have run out. -/
def programRound (fuel : Nat) (pof : ObjectFlash) (pba : Memory) (current : ProgramLocals) :
    Driver σ (Pass ProgramLocals Bool) :=
  let locals := current.countRetry
  let value := pba locals.dwSrc.toNat
  if locals.nCountProgramRetries = 0 then do
    deliverError bus pof locals.dw .programError .programEnd locals.dw (writtenAndRead value)
    let b ← readFlash bus locals.dw
    setErrorInfo ("Program failed for byte at +0x" ++ hexadecimal locals.dw ++ "; wrote 0x" ++
      hexByte value ++ ", read 0x" ++ hexByte b)
    pure (.leave false)
  else if pof.fDetectedUsing28xxxConventions then do
    let (b, dwTimeToLive) ← program28xxx bus fuel locals.dw value
    if b &&& 0x7e ≠ 0 ∨ dwTimeToLive = 0 then
      deliverError bus pof locals.dw .programError .programEnd (locals.dw - pof.dwStartOffset)
        (writtenAndRead value)
      setErrorInfo (programErrorText b dwTimeToLive)
      pure (.leave false)
    else
      pure (.next locals)
  else do
    program29xxx bus fuel locals.dw value
    pure (.next locals)

/-- The byte at `dw` is programmed: on to the next one. -/
def programAdvance (pof : ObjectFlash) (locals : ProgramLocals) :
    Driver σ (Pass ProgramLocals Bool) := do
  if ← deliverUpdate pof locals.dw .programUpdate locals.dwSrc "Program Aborted" then
    pure (.next
      { locals with dw := locals.dw + 1, dwLen := locals.dwLen - 1, dwSrc := locals.dwSrc + 1 })
  else
    pure (.leave false)

/-- One pass of the program loop, left as the erase loop is. -/
def programPass (fuel : Nat) (pof : ObjectFlash) (pba : Memory) (locals : ProgramLocals) :
    Driver σ (Pass ProgramLocals Bool) :=
  if locals.dwLen = 0 then
    pure (.leave true)
  else do
    let b ← readFlash bus locals.dw
    if b ≠ pba locals.dwSrc.toNat then
      programRound bus fuel pof pba locals
    else
      programAdvance pof locals

/-- The program loop from the start of the region on. -/
def programLoop (fuel : Nat) (pof : ObjectFlash) (pba : Memory) : Driver σ Bool :=
  Program.loop (programPass bus fuel pof pba) fuel
    { dw := pof.dwStartOffset
      dwLen := pof.dwLengthUsedArea
      dwSrc := 0
      dwLastProgramAddress := 0xffffffff
      nCountProgramRetries := 4 }

/-! ## Verifying -/

/-- `dw`, `dwLen` and `dwSrc` of the verify loop. -/
structure VerifyLocals where
  dw : UInt32
  dwLen : UInt32
  dwSrc : UInt32
  deriving Repr, DecidableEq

/-- The byte at `dw` differs from the data. -/
def verifyError (pof : ObjectFlash) (dw : UInt32) (value : Byte) : Driver σ Unit :=
  match pof.pcallbackFlash with
  | none => pure ()
  | some _ => do
    let b ← readFlash bus dw
    if ← deliver pof .verifyError dw (writtenAndRead value b) then
      let _ ← deliver pof .verifyEnd 0 0
      pure ()
    else
      pure ()

/-- One pass of the verify loop. -/
def verifyPass (pof : ObjectFlash) (pba : Memory) (locals : VerifyLocals) :
    Driver σ (Pass VerifyLocals Bool) :=
  if locals.dwLen = 0 then
    pure (.leave true)
  else do
    let value := pba locals.dwSrc.toNat
    let b ← readFlash bus locals.dw
    if b ≠ value then
      verifyError bus pof locals.dw value
      pure (.leave false)
    else
      pure (.next
        { dw := locals.dw + 1, dwLen := locals.dwLen - 1, dwSrc := locals.dwSrc + 1 })

/-- The verify loop from the start of the region on. -/
def verifyLoop (fuel : Nat) (pof : ObjectFlash) (pba : Memory) : Driver σ Bool :=
  Program.loop (verifyPass bus pof pba) fuel
    { dw := pof.dwStartOffset, dwLen := pof.dwLengthUsedArea, dwSrc := 0 }

/-- The part of `BootFlashProgram` behind the program loop. -/
def bootFlashVerify (fuel : Nat) (pof : ObjectFlash) (pba : Memory) : Driver σ Bool := do
  if ← deliver pof .verifyStart 0 0 then
    if ← verifyLoop bus fuel pof pba then
      deliver pof .verifyEnd 0 0
    else
      pure false
  else
    pure false

/-- `BootFlashProgram`. -/
def bootFlashProgram (fuel : Nat) (pof : ObjectFlash) (pba : Memory) : Driver σ Bool := do
  setErrorInfo ""
  if ← deliver pof .programStart 0 0 then
    if ← programLoop bus fuel pof pba then
      if ← deliver pof .programEnd 0 0 then
        bootFlashVerify bus fuel pof pba
      else
        pure false
    else
      pure false
  else
    setErrorInfo "Program Aborted"
    pure false

end Driver

end Cromwell.Flash
