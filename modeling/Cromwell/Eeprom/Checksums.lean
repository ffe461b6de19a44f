import Cromwell.Eeprom.Settings

/-!
# The checksums on the device stay valid

Outside its two checksum fields the copy in RAM agrees with the device after
every call. A checksum computed from the copy is therefore that of the bytes on
the device, and no write of one section reaches the other.
-/

namespace Cromwell.Eeprom

open Cromwell.Std

/-- Both sections carry their checksum. -/
structure ChecksumsHold (device : Memory) : Prop where
  checksum2 : device.bytes 0x30 4 = eepromCRC (device.bytes 0x34 0x28)
  checksum3 : device.bytes 0x60 4 = eepromCRC (device.bytes 0x64 0x5b)

/-- The bytes of the device a setter may change. -/
def Changeable (x : Nat) : Prop :=
  (0x30 ≤ x ∧ x < 0x34) ∨ (0x58 ≤ x ∧ x < 0x5c) ∨ (0x60 ≤ x ∧ x < 0x64) ∨ x = 0x96

/-- The state between two calls: the copy agrees with the device outside the
checksum fields, the checksums hold, and only changeable bytes differ from `start`. -/
structure Coherent (start : Memory) (board : Board) : Prop where
  checksums : ChecksumsHold board.device
  copy : ∀ x, x < 0x100 → ¬(0x30 ≤ x ∧ x < 0x34) → ¬(0x60 ≤ x ∧ x < 0x64) →
    board.eeprom x = board.device x
  frame : ∀ x, ¬Changeable x → board.device x = start x

section Write

variable {device eeprom : Memory} {place sumAt origin count x : Nat} {values sum : List Byte}

/-- A store in both memories keeps them in agreement outside the new checksum. -/
theorem copy_store (outside : x < sumAt ∨ sumAt + sum.length ≤ x) (same : eeprom x = device x) :
    eeprom.store place values x = (device.store place values).store sumAt sum x := by
  rw [Memory.store_outside _ outside]
  unfold Memory.store
  rw [same]

/-- The section that was written: its new checksum, computed from the copy, is
that of the device. -/
theorem written_section (above : sumAt + 4 ≤ origin)
    (same : ∀ k, k < count → eeprom (origin + k) = device (origin + k)) :
    let written := (device.store place values).store sumAt
      (eepromCRC ((eeprom.store place values).bytes origin count))
    written.bytes sumAt 4 = eepromCRC (written.bytes origin count) := by
  intro written
  have agree : (eeprom.store place values).bytes origin count = written.bytes origin count :=
    Memory.bytes_congr fun k bound =>
      copy_store (.inr (by rw [length_eepromCRC]; omega)) (same k bound)
  have stored := Memory.bytes_store (device.store place values) sumAt
    (eepromCRC ((eeprom.store place values).bytes origin count))
  rw [length_eepromCRC] at stored
  rw [← agree]
  exact stored

/-- Bytes that neither the values nor the checksum reach. -/
theorem bytes_untouched
    (apartValues : origin + count ≤ place ∨ place + values.length ≤ origin)
    (apartSum : origin + count ≤ sumAt ∨ sumAt + sum.length ≤ origin) :
    ((device.store place values).store sumAt sum).bytes origin count =
      device.bytes origin count :=
  Memory.bytes_congr fun k bound => by
    rw [Memory.store_outside _ (by omega), Memory.store_outside _ (by omega)]

end Write

variable {bus : Nat → Cycle} {start : Memory} {board : Board}

/-- `EepromSetWidescreen` renews the checksum of its section. -/
theorem Coherent.eepromSetWidescreen (coherent : Coherent start board) (enable : Bool)
    (succeeded : ∀ result ∈ (eepromSetWidescreen bus enable board).1, result = .success) :
    Coherent start (eepromSetWidescreen bus enable board).2 := by
  obtain ⟨flag, -, eeprom, device⟩ := eepromSetWidescreen_success succeeded
  have copied := coherent.copy
  exact {
    checksums := {
      checksum2 := by
        rw [device, bytes_untouched (by simp) (by simp), bytes_untouched (by simp) (by simp)]
        exact coherent.checksums.checksum2
      checksum3 := by
        rw [device]
        exact written_section (by omega) fun k bound =>
          copied (0x64 + k) (by omega) (by omega) (by omega) }
    copy := fun x bound apart2 apart3 => by
      rw [device, eeprom]
      exact copy_store (by rw [length_eepromCRC]; omega) (copied x bound apart2 apart3)
    frame := fun x fixed => by
      unfold Changeable at fixed
      rw [device, Memory.store_outside _ (by rw [length_eepromCRC]; omega),
        Memory.store_outside _ (by rw [List.length_singleton]; omega)]
      exact coherent.frame x fixed }

/-- `EepromSetVideoStandard` renews the checksum of its section. -/
theorem Coherent.eepromSetVideoStandard (coherent : Coherent start board) (standard : UInt32)
    (succeeded : ∀ result ∈ (eepromSetVideoStandard bus standard board).1, result = .success) :
    Coherent start (eepromSetVideoStandard bus standard board).2 := by
  obtain ⟨eeprom, device⟩ := eepromSetVideoStandard_success succeeded
  have copied := coherent.copy
  exact {
    checksums := {
      checksum2 := by
        rw [device]
        exact written_section (by omega) fun k bound =>
          copied (0x34 + k) (by omega) (by omega) (by omega)
      checksum3 := by
        rw [device, bytes_untouched (by simp) (by simp), bytes_untouched (by simp) (by simp)]
        exact coherent.checksums.checksum3 }
    copy := fun x bound apart2 apart3 => by
      rw [device, eeprom]
      exact copy_store (by rw [length_eepromCRC]; omega) (copied x bound apart2 apart3)
    frame := fun x fixed => by
      unfold Changeable at fixed
      rw [device, Memory.store_outside _ (by rw [length_eepromCRC]; omega),
        Memory.store_outside _ (by rw [length_standardBytes]; omega)]
      exact coherent.frame x fixed }

/-- Coherence is an invariant of the setters. -/
def coherence (bus : Nat → Cycle) (board : Board) (coherent : Coherent start board) :
    (settings bus board).Invariant where
  Inv := Coherent start
  initial _ initially := initially ▸ coherent
  preserved := by
    intro current call next held transition
    obtain ⟨results, ran, succeeded⟩ := transition
    cases call with
    | setWidescreen enable =>
        change Eeprom.eepromSetWidescreen bus enable current = (results, next) at ran
        have after := held.eepromSetWidescreen enable (by rw [ran]; exact succeeded)
        rwa [ran] at after
    | setVideoStandard standard =>
        change Eeprom.eepromSetVideoStandard bus standard current = (results, next) at ran
        have after := held.eepromSetVideoStandard standard (by rw [ran]; exact succeeded)
        rwa [ran] at after

/-- EEPROM checksums stay valid: after every call of a run in which all SMBus
writes succeed, both checksums hold on the device and no byte outside the
changeable ones differs from the device the program started with. -/
theorem checksums_stay_valid (bus : Nat → Cycle) (before : Board)
    (loaded : ∀ x, x < 0x100 → (bootEepromReadEntireEEPROM bus before).eeprom x =
      (bootEepromReadEntireEEPROM bus before).device x)
    (valid : ChecksumsHold (bootEepromReadEntireEEPROM bus before).device)
    {calls : List SettingCall} {board : Board}
    (runs : (settings bus (bootEepromReadEntireEEPROM bus before)).Runs calls board) :
    ChecksumsHold board.device ∧ ∀ x, ¬Changeable x →
      board.device x = (bootEepromReadEntireEEPROM bus before).device x := by
  have start : Coherent (bootEepromReadEntireEEPROM bus before).device
      (bootEepromReadEntireEEPROM bus before) :=
    { checksums := valid, copy := fun x bound _ _ => loaded x bound, frame := fun _ _ => rfl }
  have held : Coherent _ board := (coherence bus _ start).of_runs runs
  exact ⟨held.checksums, held.frame⟩

/-- A bus on which every cycle completes. -/
def reliableBus : Nat → Cycle := fun _ => { status := 0x10, settled := by decide, landed := true }

/-- An EEPROM of zeros with valid checksums. -/
def zeroedDevice : Memory := (blankDevice.store 0x30 [0xff, 0xff, 0xff, 0xff]).store 0x60
  [0xff, 0xff, 0xff, 0xff]
where
  blankDevice : Memory := fun _ => 0

theorem checksumsHold_zeroedDevice : ChecksumsHold zeroedDevice where
  checksum2 := by decide
  checksum3 := by decide

/-- A zeroed EEPROM, read over the reliable bus. -/
def zeroedBoard : Board := bootEepromReadEntireEEPROM reliableBus
  { device := zeroedDevice, eeprom := fun _ => 0, cycles := 0 }

theorem reliableBus_completed (n : Nat) : (reliableBus n).completed = true := by
  simp [reliableBus, Cycle.completed]

/-- The checksums after both settings of a zeroed EEPROM have been changed. -/
theorem checksums_stay_valid_zeroedDevice :
    ChecksumsHold
      ((SettingCall.setWidescreen true).run reliableBus
        ((SettingCall.setVideoStandard 0x00800300).run reliableBus zeroedBoard).2).2.device := by
  obtain ⟨device, copied⟩ := bootEepromReadEntireEEPROM_copies reliableBus_completed
  have first : (settings reliableBus zeroedBoard).Step zeroedBoard
      (.setVideoStandard 0x00800300) _ := settings_step reliableBus_completed _ _
  have second : (settings reliableBus zeroedBoard).Step
      ((SettingCall.setVideoStandard 0x00800300).run reliableBus zeroedBoard).2
      (.setWidescreen true) _ := settings_step reliableBus_completed _ _
  exact (checksums_stay_valid reliableBus _ (fun x bound => by rw [copied x bound, device])
    (by rw [device]; exact checksumsHold_zeroedDevice)
    (.step (.step (.initial rfl) first) second)).1

end Cromwell.Eeprom
