import Cromwell.Eeprom.Checksums

/-!
# The copy of the EEPROM in RAM

A setter writes its data to the device and to the copy, but the new checksum to
the device alone, and `EepromSetWidescreen` replaces the whole byte it shares with
the letterbox flag. So the copy stays that of the device, and the other flags as
they were, exactly while a call has no new checksum to write and no other flag to
lose.
-/

namespace Cromwell.Eeprom

open Cromwell.Std

/-- The copy is that of the device. -/
def Shadow (board : Board) : Prop := ∀ x < 0x100, board.eeprom x = board.device x

/-- Apart from `Checksum3` only bit 0 of byte `0x96` has changed. -/
def OnlyWidescreen (before after : Memory) : Prop :=
  (∀ x < 0x100, x ≠ 0x96 → ¬(0x60 ≤ x ∧ x < 0x64) → after x = before x) ∧
    after 0x96 &&& 0xfe = before 0x96 &&& 0xfe

/-- What is expected of a call: the copy is kept, and a change of the widescreen flag
changes nothing else. -/
structure Kept (before : Board) (call : SettingCall) (after : Board) : Prop where
  shadow : Shadow after
  widescreen : ∀ enable, call = .setWidescreen enable →
    OnlyWidescreen before.device after.device ∧ OnlyWidescreen before.eeprom after.eeprom

/-- The value a change of the widescreen flag gives byte `0x96`. -/
def widescreenByte (enable : Bool) : Byte := if enable then 0x01 else 0x00

/-- The checksum in place is that of the section with the new data, and byte `0x96`
holds no other flag. -/
def Harmless (board : Board) : SettingCall → Prop
  | .setWidescreen enable =>
    board.device.bytes 0x60 4 =
        eepromCRC ((board.device.store 0x96 [widescreenByte enable]).bytes 0x64 0x5b) ∧
      board.device 0x96 &&& 0xfe = 0
  | .setVideoStandard standard =>
    board.device.bytes 0x30 4 =
      eepromCRC ((board.device.store 0x58 (standardBytes standard)).bytes 0x34 0x28)

section Write

variable {device eeprom : Memory} {place sumAt origin count : Nat} {values sum : List Byte}

/-- The same data in both memories. -/
theorem store_congr {x : Nat} (same : eeprom x = device x) :
    eeprom.store place values x = device.store place values x := by
  unfold Memory.store
  rw [same]

/-- A checksum written to the device alone parts it from the copy, unless it is there
already. -/
theorem shadow_store_iff (same : ∀ x < 0x100, eeprom x = device x)
    (inside : sumAt + sum.length ≤ 0x100)
    (apart : place + values.length ≤ sumAt ∨ sumAt + sum.length ≤ place) :
    (∀ x < 0x100, eeprom.store place values x =
        ((device.store place values).store sumAt sum) x) ↔
      device.bytes sumAt sum.length = sum := by
  have stored := Memory.bytes_store (device.store place values) sumAt sum
  constructor
  · intro shadow
    refine Eq.trans (Memory.bytes_congr fun k bound => ?_) stored
    rw [← shadow (sumAt + k) (by omega), Memory.store_outside _ (by omega)]
    exact (same (sumAt + k) (by omega)).symm
  · intro present x bound
    by_cases summed : sumAt ≤ x ∧ x < sumAt + sum.length
    · obtain ⟨lower, upper⟩ := summed
      have position : sumAt + (x - sumAt) = x := Nat.add_sub_cancel' lower
      have byte := Memory.eq_of_bytes_eq (present.trans stored.symm) (k := x - sumAt) (by omega)
      rw [position] at byte
      rw [← byte, Memory.store_outside _ (by omega)]
      exact same x bound
    · rw [Memory.store_outside (device.store place values) (by omega)]
      exact store_congr (same x bound)

/-- The bytes of a section read the same from the copy. -/
theorem bytes_store_same (same : ∀ x < 0x100, eeprom x = device x)
    (inside : origin + count ≤ 0x100) :
    (eeprom.store place values).bytes origin count =
      (device.store place values).bytes origin count :=
  Memory.bytes_congr fun k bound => store_congr (same (origin + k) (by omega))

end Write

variable {bus : Nat → Cycle} {start board next : Board}

/-! ## One call -/

/-- What the widescreen byte keeps of its other flags: nothing. -/
theorem widescreenByte_others (enable : Bool) : widescreenByte enable &&& 0xfe = 0 := by
  cases enable <;> decide

/-- The new byte changes no other flag exactly if there was none. -/
theorem onlyWidescreen_store (enable : Bool) {before after : Memory}
    (data : after 0x96 = widescreenByte enable)
    (others : ∀ x < 0x100, x ≠ 0x96 → ¬(0x60 ≤ x ∧ x < 0x64) → after x = before x) :
    OnlyWidescreen before after ↔ before 0x96 &&& 0xfe = 0 := by
  rw [OnlyWidescreen, data, widescreenByte_others]
  constructor
  · rintro ⟨-, kept⟩
    exact kept.symm
  · intro none
    exact ⟨others, none.symm⟩

theorem eepromSetWidescreen_kept_iff {enable : Bool} (shadow : Shadow board)
    (succeeded : ∀ result ∈ (eepromSetWidescreen bus enable board).1, result = .success) :
    Kept board (.setWidescreen enable) (eepromSetWidescreen bus enable board).2 ↔
      Harmless board (.setWidescreen enable) := by
  obtain ⟨flag, value, eeprom, device⟩ := eepromSetWidescreen_success succeeded
  change flag = widescreenByte enable at value
  subst value
  rw [bytes_store_same shadow (by omega)] at device
  have coherent : Shadow (eepromSetWidescreen bus enable board).2 ↔ board.device.bytes 0x60 4 =
      eepromCRC ((board.device.store 0x96 [widescreenByte enable]).bytes 0x64 0x5b) := by
    unfold Shadow
    rw [eeprom, device]
    exact shadow_store_iff shadow (by rw [length_eepromCRC]; omega) (by simp)
  have changed : OnlyWidescreen board.device (eepromSetWidescreen bus enable board).2.device ↔
      board.device 0x96 &&& 0xfe = 0 := by
    rw [device]
    refine onlyWidescreen_store enable ?_ ?_
    · rw [Memory.store_outside _ (by rw [length_eepromCRC]; omega), Memory.store_singleton,
        Memory.set_same]
    · intro x _ other apart
      rw [Memory.store_outside _ (by rw [length_eepromCRC]; omega), Memory.store_singleton,
        Memory.set_other _ other]
  have copied : OnlyWidescreen board.eeprom (eepromSetWidescreen bus enable board).2.eeprom ↔
      board.eeprom 0x96 &&& 0xfe = 0 := by
    rw [eeprom]
    refine onlyWidescreen_store enable ?_ ?_
    · rw [Memory.store_singleton, Memory.set_same]
    · intro x _ other _
      rw [Memory.store_singleton, Memory.set_other _ other]
  rw [shadow 0x96 (by omega)] at copied
  constructor
  · intro kept
    exact ⟨coherent.mp kept.shadow, changed.mp (kept.widescreen enable rfl).1⟩
  · rintro ⟨checksum, flags⟩
    refine ⟨coherent.mpr checksum, ?_⟩
    rintro _ ⟨⟩
    exact ⟨changed.mpr flags, copied.mpr flags⟩

theorem eepromSetVideoStandard_kept_iff {standard : UInt32} (shadow : Shadow board)
    (succeeded : ∀ result ∈ (eepromSetVideoStandard bus standard board).1, result = .success) :
    Kept board (.setVideoStandard standard) (eepromSetVideoStandard bus standard board).2 ↔
      Harmless board (.setVideoStandard standard) := by
  obtain ⟨eeprom, device⟩ := eepromSetVideoStandard_success succeeded
  rw [bytes_store_same shadow (by omega)] at device
  have coherent : Shadow (eepromSetVideoStandard bus standard board).2 ↔
      Harmless board (.setVideoStandard standard) := by
    unfold Shadow
    rw [eeprom, device]
    exact shadow_store_iff shadow (by rw [length_eepromCRC]; omega)
      (by rw [length_eepromCRC, length_standardBytes]; omega)
  constructor
  · intro kept
    exact coherent.mp kept.shadow
  · intro harmless
    exact ⟨coherent.mpr harmless, nofun⟩

/-- A call on a faithful copy is kept exactly if it is harmless. -/
theorem step_kept_iff {call : SettingCall} (shadow : Shadow board)
    (step : (settings bus start).Step board call next) :
    Kept board call next ↔ Harmless board call := by
  obtain ⟨results, ran, succeeded⟩ := step
  cases call with
  | setWidescreen enable =>
      change eepromSetWidescreen bus enable board = (results, next) at ran
      have iff : Kept board (.setWidescreen enable) (eepromSetWidescreen bus enable board).2 ↔ _ :=
        eepromSetWidescreen_kept_iff shadow (by rw [ran]; exact succeeded)
      rwa [ran] at iff
  | setVideoStandard standard =>
      change eepromSetVideoStandard bus standard board = (results, next) at ran
      have iff : Kept board (.setVideoStandard standard)
          (eepromSetVideoStandard bus standard board).2 ↔ _ :=
        eepromSetVideoStandard_kept_iff shadow (by rw [ran]; exact succeeded)
      rwa [ran] at iff

/-! ## Whole runs -/

/-- A faithful copy is an invariant of harmless calls. -/
def shadowing (bus : Nat → Cycle) (start : Board) (shadow : Shadow start) :
    ((settings bus start).restrict Harmless).Invariant where
  Inv := Shadow
  initial _ initially := initially ▸ shadow
  preserved held transition := ((step_kept_iff held transition.2).mpr transition.1).shadow

/-- Right after the EEPROM has been read, every run of harmless calls keeps the copy
that of the device and every other flag as it was; and on a faithful copy no other
call does. -/
theorem shadow_kept (bus : Nat → Cycle) (before : Board)
    (loaded : Shadow (bootEepromReadEntireEEPROM bus before)) :
    (∀ calls board,
      ((settings bus (bootEepromReadEntireEEPROM bus before)).restrict Harmless).Runs calls board →
      Shadow board ∧ ∀ call next,
        ((settings bus (bootEepromReadEntireEEPROM bus before)).restrict Harmless).Step
          board call next → Kept board call next) ∧
    ∀ board call next, Shadow board →
      (settings bus (bootEepromReadEntireEEPROM bus before)).Step board call next →
      (Kept board call next ↔ Harmless board call) := by
  constructor
  · intro calls board runs
    have shadow : Shadow board := (shadowing bus _ loaded).of_runs runs
    refine ⟨shadow, fun call next step => ?_⟩
    exact (step_kept_iff shadow step.2).mpr step.1
  · intro board call next shadow step
    exact step_kept_iff shadow step

/-- A reliable bus copies the device faithfully, and leaves it alone. -/
theorem shadow_read (before : Board) : Shadow (bootEepromReadEntireEEPROM reliableBus before) := by
  obtain ⟨device, copied⟩ := bootEepromReadEntireEEPROM_copies reliableBus_completed
  intro x bound
  exact (copied x bound).trans (congrFun device x).symm

theorem device_read (before : Board) :
    (bootEepromReadEntireEEPROM reliableBus before).device = before.device :=
  (bootEepromReadEntireEEPROM_copies reliableBus_completed).1

/-- An EEPROM whose checksum is the same with four ones or four zeros for a video standard. -/
def balancedDevice : Memory :=
  ((Memory.store (fun _ => 0) 0x30 [0xfe, 0xfe, 0xff, 0xfe]).store 0x37 [1, 1, 1]).store 0x58
    [0xff, 0xff, 0xff, 0xff]

/-- It, read over the reliable bus. -/
def balancedBoard : Board := bootEepromReadEntireEEPROM reliableBus
  { device := balancedDevice, eeprom := fun _ => 0, cycles := 0 }

/-- There a change of the video standard is harmless. -/
theorem shadow_kept_balancedBoard :
    Kept balancedBoard (.setVideoStandard 0)
        ((SettingCall.setVideoStandard 0).run reliableBus balancedBoard).2 ∧
      balancedBoard.device 0x58 = 0xff ∧
      ((SettingCall.setVideoStandard 0).run reliableBus balancedBoard).2.device 0x58 = 0 := by
  have device : balancedBoard.device = balancedDevice := device_read _
  have harmless : Harmless balancedBoard (.setVideoStandard 0) := by
    rw [Harmless, device]
    decide
  have succeeded : ∀ result ∈ (eepromSetVideoStandard reliableBus 0 balancedBoard).1,
      result = .success := SettingCall.run_completed reliableBus_completed (.setVideoStandard 0)
  obtain ⟨-, written⟩ := eepromSetVideoStandard_success succeeded
  refine ⟨?_, ?_, ?_⟩
  · exact ((shadow_kept reliableBus _ (shadow_read _)).1 [] balancedBoard (.initial rfl)).2 _ _
      ⟨harmless, settings_step reliableBus_completed _ _⟩
  · rw [device]
    decide
  · refine (congrFun written 0x58).trans ?_
    rw [Memory.store_outside _ (by simp), Memory.store_inside _ (by simp) (by simp)]
    rfl

/-- Switching it on leaves the old checksum in the copy. -/
theorem not_shadow_kept :
    ¬ ∀ (bus : Nat → Cycle) (before : Board), Shadow (bootEepromReadEntireEEPROM bus before) →
      ∀ calls board, (settings bus (bootEepromReadEntireEEPROM bus before)).Runs calls board →
        ∀ call next, (settings bus (bootEepromReadEntireEEPROM bus before)).Step board call next →
          Kept board call next := by
  intro kept
  have zeroed : zeroedBoard.device = zeroedDevice := device_read _
  have step : (settings reliableBus zeroedBoard).Step zeroedBoard (.setWidescreen true) _ :=
    settings_step reliableBus_completed zeroedBoard (.setWidescreen true)
  have shadow : Shadow zeroedBoard := shadow_read _
  have harmless := (step_kept_iff shadow step).mp
    (kept reliableBus _ shadow [] zeroedBoard (.initial rfl) _ _ step)
  rw [Harmless, zeroed] at harmless
  exact absurd harmless.1 (by decide)

end Cromwell.Eeprom
