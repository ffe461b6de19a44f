import Cromwell.Eeprom.SMBus
import Cromwell.Std.Execution

/-!
# The settings kept in the EEPROM

`BootEEPROM.c` keeps a copy of the EEPROM in RAM. A setter writes its bytes to the
device and to the copy, computes the checksum of the section from the copy, and
writes it to the device only.
-/

namespace Cromwell.Eeprom

open Cromwell.Std

/-! ## The checksum -/

/-- `CRC_Data`: the data rotated right by one byte, and four zeros. -/
def crcData (data : List Byte) : List Byte :=
  data.drop (data.length - 1) ++ data.take (data.length - 1) ++ List.replicate 4 0

/-- The little-endian 16-bit word at a position. -/
def wordAt (bytes : List Byte) (position : Nat) : UInt16 :=
  (bytes.getD position 0).toUInt16 ||| ((bytes.getD (position + 1) 0).toUInt16 <<< 8)

/-- Byte `pos` of the checksum: every fourth word subtracted from `0xFFFF`, high byte. -/
def crcByte (data : List Byte) (pos : Nat) : Byte :=
  let crcPosVal := (List.range' pos ((data.length + 3 - pos) / 4) 4).foldl
    (fun value l => value - wordAt (crcData data) l) 0xFFFF
  ((crcPosVal &&& 0xFF00) >>> 8).toUInt8

/-- `EepromCRC`. -/
def eepromCRC (data : List Byte) : List Byte := (List.range 4).map (crcByte data)

@[simp] theorem length_eepromCRC (data : List Byte) : (eepromCRC data).length = 4 := by
  simp [eepromCRC]

/-! ## The program -/

section Program

variable (bus : Nat → Cycle)

/-- One pass of `BootEepromReadEntireEEPROM`. -/
def readRegister (board : Board) (register : Nat) : Board :=
  let (value, board) := i2cTransmitByteGetReturn bus register board
  { board with eeprom := board.eeprom.set register value }

/-- `BootEepromReadEntireEEPROM`. -/
def bootEepromReadEntireEEPROM (board : Board) : Board :=
  (List.range 256).foldl (readRegister bus) board

/-- `EepromSetWidescreen`, with the results of its SMBus writes, which it ignores. -/
def eepromSetWidescreen (enable : Bool) (board : Board) : List SMBusResult × Board :=
  let flag : Byte := if enable then 0x01 else 0x00
  let (flagResult, board) := writeToSMBus bus eepromAddress 0x96 0 flag.toNat board
  let board := { board with eeprom := board.eeprom.set 0x96 flag }
  let sum := eepromCRC (board.eeprom.bytes 0x64 0x5b)
  let (sumResults, board) := writeBytes bus 0x60 1 sum board
  (flagResult :: sumResults, board)

/-- The bytes of a video standard, least significant first. -/
def standardBytes (standard : UInt32) : List Byte :=
  (List.range 4).map fun i => (standard >>> (8 * i).toUInt32).toUInt8

/-- `EepromSetVideoStandard`, with the results of its SMBus writes, which it ignores. -/
def eepromSetVideoStandard (standard : UInt32) (board : Board) : List SMBusResult × Board :=
  let (standardResults, board) := writeBytes bus 0x58 1 (standardBytes standard) board
  let board := { board with eeprom := board.eeprom.store 0x58 (standardBytes standard) }
  let sum := eepromCRC (board.eeprom.bytes 0x34 0x28)
  let (sumResults, board) := writeBytes bus 0x30 0 sum board
  (standardResults ++ sumResults, board)

/-- A call of a setter. -/
inductive SettingCall where
  | setWidescreen (enable : Bool)
  | setVideoStandard (standard : UInt32)
  deriving Repr, DecidableEq

/-- The setter a call runs. -/
def SettingCall.run : SettingCall → Board → List SMBusResult × Board
  | setWidescreen enable => eepromSetWidescreen bus enable
  | setVideoStandard standard => eepromSetVideoStandard bus standard

/-- Calls of the setters from a board on, in which every SMBus write succeeds. -/
def settings (start : Board) : LabelledSystem SettingCall where
  State := Board
  Initial board := board = start
  Step board call next := ∃ results, call.run bus board = (results, next) ∧
    ∀ result ∈ results, result = .success

end Program

@[simp] theorem length_standardBytes (standard : UInt32) :
    (standardBytes standard).length = 4 := by
  simp [standardBytes]

/-! ## What the setters do to the device and to the copy -/

section Setters

variable {bus : Nat → Cycle} {board : Board}

/-- Bytes that are all written successfully are stored on the device. -/
theorem writeBytes_success {register size : Nat} (single : size = 0 ∨ size = 1)
    (values : List Byte)
    (succeeded : ∀ result ∈ (writeBytes bus register size values board).1, result = .success) :
    (writeBytes bus register size values board).2.device = board.device.store register values ∧
      (writeBytes bus register size values board).2.eeprom = board.eeprom := by
  induction values generalizing register board with
  | nil => exact ⟨(Memory.store_nil board.device).symm, rfl⟩
  | cons value values ih =>
      have one : sentBytes size value.toNat = [UInt8.ofNat value.toNat] := by
        rcases single with rfl | rfl <;> rfl
      simp only [writeBytes, List.forall_mem_cons] at succeeded ⊢
      obtain ⟨device, eeprom⟩ := writeToSMBus_success one succeeded.1
      obtain ⟨restDevice, restEeprom⟩ := ih succeeded.2
      rw [restDevice, restEeprom, device, eeprom, UInt8.ofNat_toNat, Memory.store_cons]
      exact ⟨rfl, rfl⟩

/-- The widescreen flag is written to both, the checksum of the copy to the device. -/
theorem eepromSetWidescreen_success {enable : Bool}
    (succeeded : ∀ result ∈ (eepromSetWidescreen bus enable board).1, result = .success) :
    ∃ flag : Byte, flag = (if enable then 0x01 else 0x00) ∧
      (eepromSetWidescreen bus enable board).2.eeprom = board.eeprom.store 0x96 [flag] ∧
      (eepromSetWidescreen bus enable board).2.device =
        (board.device.store 0x96 [flag]).store 0x60
          (eepromCRC ((board.eeprom.store 0x96 [flag]).bytes 0x64 0x5b)) := by
  let flag : Byte := if enable then 0x01 else 0x00
  simp only [eepromSetWidescreen, List.forall_mem_cons] at succeeded ⊢
  obtain ⟨device, eeprom⟩ := writeToSMBus_success rfl succeeded.1
  obtain ⟨sumDevice, sumEeprom⟩ := writeBytes_success (.inr rfl) _ succeeded.2
  refine ⟨flag, rfl, ?_, ?_⟩
  · rw [sumEeprom, eeprom, Memory.store_singleton]
  · rw [sumDevice, device, eeprom, UInt8.ofNat_toNat, Memory.store_singleton,
      Memory.store_singleton]

/-- The standard is written to both, the checksum of the copy to the device. -/
theorem eepromSetVideoStandard_success {standard : UInt32}
    (succeeded : ∀ result ∈ (eepromSetVideoStandard bus standard board).1, result = .success) :
    (eepromSetVideoStandard bus standard board).2.eeprom =
        board.eeprom.store 0x58 (standardBytes standard) ∧
      (eepromSetVideoStandard bus standard board).2.device =
        (board.device.store 0x58 (standardBytes standard)).store 0x30
          (eepromCRC ((board.eeprom.store 0x58 (standardBytes standard)).bytes 0x34 0x28)) := by
  simp only [eepromSetVideoStandard, List.forall_mem_append] at succeeded ⊢
  obtain ⟨device, eeprom⟩ := writeBytes_success (.inr rfl) _ succeeded.1
  obtain ⟨sumDevice, sumEeprom⟩ := writeBytes_success (.inl rfl) _ succeeded.2
  rw [sumEeprom, sumDevice, eeprom, device]
  exact ⟨rfl, rfl⟩

/-- A read whose first cycle completes copies the byte of the device. -/
theorem readRegister_completed {register : Nat}
    (completed : (bus board.cycles).completed = true) :
    readRegister bus board register =
      { board with
        eeprom := board.eeprom.set register (board.device register)
        cycles := board.cycles + 1 } := by
  simp [readRegister, i2cTransmitByteGetReturn, forLoop_succ, readCycle, completed, Pass.andThen]

/-- On a bus whose cycles all complete, the copy is that of the device. -/
theorem bootEepromReadEntireEEPROM_copies (reliable : ∀ n, (bus n).completed = true) :
    (bootEepromReadEntireEEPROM bus board).device = board.device ∧
      ∀ x, x < 256 → (bootEepromReadEntireEEPROM bus board).eeprom x = board.device x := by
  unfold bootEepromReadEntireEEPROM
  generalize 256 = count
  induction count with
  | zero => exact ⟨rfl, fun x impossible => absurd impossible (Nat.not_lt_zero x)⟩
  | succ count ih =>
      obtain ⟨device, copied⟩ := ih
      rw [List.range_succ, List.foldl_append, List.foldl_cons, List.foldl_nil,
        readRegister_completed (reliable _)]
      refine ⟨device, fun x bound => ?_⟩
      change Memory.set _ count _ x = board.device x
      by_cases last : x = count
      · rw [last, Memory.set_same, device]
      · rw [Memory.set_other _ last]
        exact copied x (by omega)

theorem writeBytes_completed {register size : Nat} (reliable : ∀ n, (bus n).completed = true)
    (values : List Byte) :
    ∀ result ∈ (writeBytes bus register size values board).1, result = .success := by
  induction values generalizing register board with
  | nil => exact List.forall_mem_nil _
  | cons value values ih =>
      simp only [writeBytes, List.forall_mem_cons]
      exact ⟨writeToSMBus_completed (reliable _), ih⟩

/-- On a bus whose cycles all complete, all writes of a setter succeed. -/
theorem SettingCall.run_completed (reliable : ∀ n, (bus n).completed = true)
    (call : SettingCall) : ∀ result ∈ (call.run bus board).1, result = .success := by
  cases call with
  | setWidescreen enable =>
      simp only [run, eepromSetWidescreen, List.forall_mem_cons]
      exact ⟨writeToSMBus_completed (reliable _), writeBytes_completed reliable _⟩
  | setVideoStandard standard =>
      simp only [run, eepromSetVideoStandard, List.forall_mem_append]
      exact ⟨writeBytes_completed reliable _, writeBytes_completed reliable _⟩

/-- A reliable bus lets every call run. -/
theorem settings_step {start : Board} (reliable : ∀ n, (bus n).completed = true)
    (board : Board) (call : SettingCall) :
    (settings bus start).Step board call (call.run bus board).2 :=
  ⟨(call.run bus board).1, rfl, call.run_completed reliable⟩

end Setters

end Cromwell.Eeprom
