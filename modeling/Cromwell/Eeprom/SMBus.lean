import Cromwell.Std.Loop
import Cromwell.Std.Memory

/-!
# The SMBus and the EEPROM behind it

`WriteToSMBus` and `ReadfromSMBus` start a bus cycle, wait for a status, and try
again up to 50 times unless the cycle completed. What the bus answers is
arbitrary. A cycle that ends in an error may have reached the device or not.
-/

namespace Cromwell.Eeprom

open Cromwell.Std

/-- How a bus cycle ends: the first status with one of the bits `0x36`, and
whether the device took the data although the cycle did not complete. -/
structure Cycle where
  status : Byte
  settled : status &&& 0x36 ≠ 0
  landed : Bool

/-- The completion bit. -/
def Cycle.completed (cycle : Cycle) : Bool := cycle.status &&& 0x10 ≠ 0

/-- The EEPROM, its copy `eeprom` in RAM, and the number of bus cycles so far. -/
structure Board where
  device : Memory
  eeprom : Memory
  cycles : Nat

/-- The return values of the SMBus functions. -/
inductive SMBusResult where
  /-- `ERR_SUCCESS`. -/
  | success
  /-- `ERR_I2C_ERROR_BUS`. -/
  | busError
  deriving Repr, DecidableEq

/-- The bus address of the EEPROM. -/
def eepromAddress : Nat := 0x54

/-- The bytes a write cycle carries. -/
def sentBytes (size data : Nat) : List Byte :=
  match size with
  | 4 => dwordBytes data
  | 2 => (dwordBytes data).take 2
  | _ => [UInt8.ofNat data]

section Bus

variable (bus : Nat → Cycle)

/-- One pass of the retry loop of `WriteToSMBus`. -/
def writeCycle (address register size data : Nat) (_ : Nat) (board : Board) : Pass Board Board :=
  let cycle := bus board.cycles
  let reached := address = eepromAddress ∧ (cycle.completed ∨ cycle.landed)
  let device := if reached then board.device.store register (sentBytes size data)
    else board.device
  let board := { board with device, cycles := board.cycles + 1 }
  if cycle.completed then .leave board else .next board

/-- `WriteToSMBus`. -/
def writeToSMBus (address register size data : Nat) (board : Board) : SMBusResult × Board :=
  match forLoop (writeCycle bus address register size data) 50 0 board with
  | .leave board => (.success, board)
  | .next board => (.busError, board)

/-- One pass of the retry loop of `ReadfromSMBus`, for a single byte of the EEPROM. -/
def readCycle (register : Nat) (_ : Nat) (board : Board) : Pass Board (Byte × Board) :=
  let cycle := bus board.cycles
  let board := { board with cycles := board.cycles + 1 }
  if cycle.completed then .leave (board.device register, board) else .next board

/-- `I2CTransmitByteGetReturn` for the EEPROM, cut to a byte; an error code ends in `0x02`. -/
def i2cTransmitByteGetReturn (register : Nat) (board : Board) : Byte × Board :=
  match forLoop (readCycle bus register) 50 0 board with
  | .leave (value, board) => (value, board)
  | .next board => (0x02, board)

/-- Writes to consecutive registers of the EEPROM, with the results of all of them. -/
def writeBytes (register size : Nat) : List Byte → Board → List SMBusResult × Board
  | [], board => ([], board)
  | value :: values, board =>
    let (result, board) := writeToSMBus bus eepromAddress register size value.toNat board
    let (results, board) := writeBytes (register + 1) size values board
    (result :: results, board)

end Bus

/-! ## What a successful write does -/

variable {bus : Nat → Cycle}

/-- The device holds the data of the write or what it held before it. -/
def OldOrWritten (before : Board) (written : Memory) (_ : Nat) (board : Board) : Prop :=
  (board.device = before.device ∨ board.device = written) ∧ board.eeprom = before.eeprom

/-- Writing a byte once more changes nothing. -/
theorem store_byte_again (memory : Memory) (register : Nat) (value : Byte) :
    (memory.store register [value]).store register [value] = memory.store register [value] := by
  rw [Memory.store_singleton, Memory.store_singleton, Memory.set_set]

/-- A successful write of a byte leaves exactly that byte changed, however many
cycles it took. -/
theorem writeToSMBus_success {register size data : Nat} {board : Board}
    (single : sentBytes size data = [UInt8.ofNat data])
    (succeeded : (writeToSMBus bus eepromAddress register size data board).1 = .success) :
    (writeToSMBus bus eepromAddress register size data board).2.device =
        board.device.set register (.ofNat data) ∧
      (writeToSMBus bus eepromAddress register size data board).2.eeprom = board.eeprom := by
  have ends : (forLoop (writeCycle bus eepromAddress register size data) 50 0 board).Ends
      (OldOrWritten board (board.device.store register [.ofNat data]) (0 + 50))
      (fun after => after.device = board.device.store register [.ofNat data] ∧
        after.eeprom = board.eeprom) := by
    refine forLoop_ends ⟨.inl rfl, rfl⟩ ?_
    intro index current _ _ invariant
    obtain ⟨device, eeprom⟩ := invariant
    have stored : current.device.store register [.ofNat data] =
        board.device.store register [.ofNat data] := by
      rcases device with old | written
      · rw [old]
      · rw [written, store_byte_again]
    unfold writeCycle
    rw [single, stored]
    cases completed : (bus current.cycles).completed with
    | true =>
        simp only [completed, true_or, and_true, if_true]
        exact ⟨rfl, eeprom⟩
    | false =>
        simp only [completed, Bool.false_eq_true, false_or, if_false, true_and]
        refine ⟨?_, eeprom⟩
        split
        · exact .inr rfl
        · exact device
  unfold writeToSMBus at succeeded ⊢
  generalize forLoop _ 50 0 board = ended at ends succeeded ⊢
  cases ended with
  | next after => cases succeeded
  | leave after => rwa [Memory.store_singleton] at ends

/-- A write whose first cycle completes succeeds. -/
theorem writeToSMBus_completed {address register size data : Nat} {board : Board}
    (completed : (bus board.cycles).completed = true) :
    (writeToSMBus bus address register size data board).1 = .success := by
  simp [writeToSMBus, forLoop_succ, writeCycle, completed, Pass.andThen]

end Cromwell.Eeprom
