import Cromwell.Flash.Device

/-!
# What the commands of the driver do to a chip

The array changes only in sectors that meet the region, and no command is issued
that the region does not justify. After each command of its own convention a chip is
back in array mode, whether the command took effect or not.
-/

namespace Cromwell.Flash

open Cromwell.Std FlashChip

/-- A region of the flash. -/
structure Region where
  start : Nat
  length : Nat

namespace Region

/-- The addresses of the region. -/
def Contains (region : Region) (address : Nat) : Prop :=
  region.start ≤ address ∧ address < region.start + region.length

/-- The sector of the address meets the region. -/
def MeetsSectorOf (region : Region) (chip : FlashChip) (address : Nat) : Prop :=
  ∃ x, region.Contains x ∧ chip.sectorOf x = chip.sectorOf address

/-- The region is the whole chip. -/
def IsWhole (region : Region) (chip : FlashChip) : Prop :=
  region.start = 0 ∧ region.length = chip.lengthInBytes

/-- The commands the driver may issue to write the region. -/
def Justifies (region : Region) (chip : FlashChip) : FlashCommand → Prop
  | .sectorErase address => region.Contains address
  | .chipErase => region.IsWhole chip
  | .program address _ => region.Contains address

end Region

/-- The array has changed in sectors that meet the region only, and the whole
chip was erased only if the region is the whole chip. -/
structure Confined (chip : FlashChip) (region : Region) (contents : Memory)
    (device : FlashDevice) : Prop where
  untouched : ∀ address < chip.lengthInBytes, ¬ region.MeetsSectorOf chip address →
    device.array address = contents address
  wholeChip : FlashCommand.chipErase ∈ device.issued → region.IsWhole chip

variable {chip : FlashChip} {region : Region} {contents : Memory}

theorem confined_issue {device : FlashDevice} {mode : FlashMode} {command : FlashCommand}
    (confined : Confined chip region contents device) (justified : region.Justifies chip command) :
    Confined chip region contents (chip.issue device mode command) where
  untouched := by
    intro address inside apart
    have before := confined.untouched address inside apart
    cases effective : chip.takesEffect device.issued.length with
    | false => simpa [FlashChip.issue, effective] using before
    | true =>
        simp only [FlashChip.issue, effective, if_true]
        cases command with
        | sectorErase erased =>
            have other : chip.sectorOf address ≠ chip.sectorOf erased :=
              fun same => apart ⟨erased, justified, same.symm⟩
            simpa [FlashChip.effect, other] using before
        | chipErase =>
            obtain ⟨start, length⟩ := justified
            have within : region.Contains address := ⟨by omega, by omega⟩
            exact absurd ⟨address, within, rfl⟩ apart
        | program programmed data =>
            have other : address ≠ programmed := by
              rintro rfl
              exact apart ⟨address, justified, rfl⟩
            simpa [FlashChip.effect, Memory.set, other] using before
  wholeChip := by
    intro issued
    rcases List.mem_append.mp issued with earlier | now
    · exact confined.wholeChip earlier
    · rw [List.mem_singleton] at now
      subst now
      exact justified

/-! ## Cycles on the bus -/

/-- The same state with the chip in another mode. -/
def FlashState.inMode (state : FlashState FlashDevice) (mode : FlashMode) :
    FlashState FlashDevice :=
  { state with flash := { state.flash with mode } }

section Modes

variable (state : FlashState FlashDevice) (mode mode' : FlashMode)

@[simp] theorem inMode_mode : (state.inMode mode).flash.mode = mode := rfl

@[simp] theorem inMode_array : (state.inMode mode).flash.array = state.flash.array := rfl

@[simp] theorem inMode_inMode : (state.inMode mode).inMode mode' = state.inMode mode' := rfl

end Modes

section Cycles

variable {state : FlashState FlashDevice} {cut : FlashState FlashDevice → Prop}
  {returned : Unit → FlashState FlashDevice → Prop} {address : UInt32} {value : Byte}

/-- A write that completes no command moves the decoder only. -/
theorem ensures_writeFlash (mode : FlashMode)
    (decoded : chip.decode state.flash.mode address.toNat value = (mode, none)) :
    (writeFlash chip.bus address value).Ensures state cut returned ↔
      returned () (state.inMode mode) := by
  simp [writeFlash, FlashChip.bus, FlashChip.write, decoded, FlashState.inMode]

/-- A write that completes a command issues it. -/
theorem ensures_writeFlash_issue {mode : FlashMode} {command : FlashCommand}
    (decoded : chip.decode state.flash.mode address.toNat value = (mode, some command)) :
    (writeFlash chip.bus address value).Ensures state cut returned ↔
      returned () { state with flash := chip.issue state.flash mode command } := by
  simp [writeFlash, FlashChip.bus, FlashChip.write, decoded]

theorem ensures_unlock (is29xxx : chip.is28xxx = false) (idle : state.flash.mode = .array) :
    (unlock chip.bus).Ensures state cut returned ↔ returned () (state.inMode .unlocked) := by
  rw [unlock, Program.ensures_bind,
    ensures_writeFlash .unlocking (by simp [idle, decode_29xxx is29xxx, decode29xxx]),
    ensures_writeFlash .unlocked (by simp [decode_29xxx is29xxx, decode29xxx]),
    inMode_inMode]

end Cycles

/-! ## Commands -/

/-- The chip is in array mode. -/
structure Idle (chip : FlashChip) (region : Region) (contents : Memory)
    (device : FlashDevice) : Prop where
  confined : Confined chip region contents device
  array : device.mode = .array

/-- The chip may still be busy with a 29xxx command. -/
structure Settling (chip : FlashChip) (region : Region) (contents : Memory)
    (device : FlashDevice) : Prop where
  confined : Confined chip region contents device
  settling : device.mode = .array ∨ ∃ remaining toggle, device.mode = .busy remaining toggle

/-- The chip shows its 28xxx status. -/
structure Reporting (chip : FlashChip) (region : Region) (contents : Memory)
    (device : FlashDevice) : Prop where
  confined : Confined chip region contents device
  status : device.mode = .status

/-- What holds wherever the driver is cut off. -/
def Safe (chip : FlashChip) (region : Region) (contents : Memory)
    (state : FlashState FlashDevice) : Prop :=
  Confined chip region contents state.flash

theorem confined_inMode {state : FlashState FlashDevice} {mode : FlashMode}
    (confined : Confined chip region contents state.flash) :
    Confined chip region contents (state.inMode mode).flash where
  untouched := confined.untouched
  wholeChip := confined.wholeChip

section Commands

variable {state : FlashState FlashDevice} {fuel : Nat} {dw : UInt32}

theorem resetCommand_ensures (is29xxx : chip.is28xxx = false)
    (idle : Idle chip region contents state.flash) :
    (resetCommand chip.bus).Ensures state (Safe chip region contents)
      fun _ after => Idle chip region contents after.flash := by
  rw [resetCommand, Program.ensures_bind, ensures_unlock is29xxx idle.array,
    ensures_writeFlash .array (by simp [decode_29xxx is29xxx, decode29xxx]), inMode_inMode]
  exact ⟨confined_inMode idle.confined, rfl⟩

theorem issue_settling {command : FlashCommand} {device : FlashDevice}
    (confined : Confined chip region contents device)
    (justified : region.Justifies chip command) :
    Settling chip region contents (chip.issue device (.busy 0 false) command) :=
  ⟨confined_issue confined justified, .inr ⟨_, _, rfl⟩⟩

/-- An erase command whose last cycle the chip knows and the region justifies. -/
theorem eraseCommand_ensures {code : Byte} (is29xxx : chip.is28xxx = false)
    (command : FlashCommand) (idle : Idle chip region contents state.flash)
    (decoded : chip.decode .eraseUnlocked dw.toNat code = (.busy 0 false, some command))
    (justified : region.Justifies chip command) :
    (eraseCommand chip.bus dw code).Ensures state (Safe chip region contents)
      fun _ after => Settling chip region contents after.flash := by
  rw [eraseCommand, Program.ensures_bind, ensures_unlock is29xxx idle.array, Program.ensures_bind,
    ensures_writeFlash .eraseSetup (by simp [decode_29xxx is29xxx, decode29xxx]), unlock,
    Program.ensures_bind, Program.ensures_bind,
    ensures_writeFlash .eraseUnlocking (by simp [decode_29xxx is29xxx, decode29xxx]),
    ensures_writeFlash .eraseUnlocked (by simp [decode_29xxx is29xxx, decode29xxx]),
    ensures_writeFlash_issue decoded, inMode_inMode, inMode_inMode, inMode_inMode]
  exact issue_settling (confined_inMode idle.confined) justified

/-- A read leaves the array and the issued commands alone. -/
theorem confined_read {device : FlashDevice} (confined : Confined chip region contents device)
    (address : Nat) :
    Confined chip region contents (chip.read device address).2 where
  untouched := confined.untouched
  wholeChip := confined.wholeChip

/-- A read of a chip at work finds it done, or sees its toggle bit. -/
theorem readFlash_settling (settling : Settling chip region contents state.flash) :
    (readFlash chip.bus dw).Ensures state (Safe chip region contents) fun b after =>
      Confined chip region contents after.flash ∧ (after.flash.mode = .array ∨
        ∃ remaining toggle, state.flash.mode = .busy (remaining + 1) toggle ∧
          after.flash.mode = .busy remaining (!toggle) ∧ b &&& 0x40 = toggleBit toggle) := by
  refine ⟨confined_read settling.confined dw.toNat, ?_⟩
  rcases settling.settling with array | ⟨remaining, toggle, busy⟩
  · left
    simp [FlashChip.bus, FlashChip.read, array, FlashChip.afterRead]
  · cases remaining with
    | zero =>
        left
        simp [FlashChip.bus, FlashChip.read, busy, FlashChip.afterRead]
    | succ remaining =>
        refine .inr ⟨remaining, toggle, busy, ?_, ?_⟩
        · simp [FlashChip.bus, FlashChip.read, busy, FlashChip.afterRead]
        · simp [FlashChip.bus, FlashChip.read, busy, FlashChip.value, busy_bit]

/-- What the polling loop keeps: a chip still at work will show the toggle bit
opposite to the expected one. -/
def Polling (chip : FlashChip) (region : Region) (contents : Memory) (b : Byte)
    (device : FlashDevice) : Prop :=
  Confined chip region contents device ∧ (device.mode = .array ∨
    ∃ remaining toggle, device.mode = .busy remaining toggle ∧ b &&& 0x40 = toggleBit (!toggle))

theorem Polling.settling {b : Byte} (polling : Polling chip region contents b state.flash) :
    Settling chip region contents state.flash := by
  obtain ⟨confined, array | ⟨remaining, toggle, busy, _⟩⟩ := polling
  · exact ⟨confined, .inl array⟩
  · exact ⟨confined, .inr ⟨remaining, toggle, busy⟩⟩

/-- One read of the polling loop: as long as the chip is at work the bit differs. -/
theorem readFlash_polling {b : Byte} (polling : Polling chip region contents b state.flash) :
    (readFlash chip.bus dw).Ensures state (Safe chip region contents) fun again after =>
      Idle chip region contents after.flash ∨
        again &&& 0x40 ≠ b &&& 0x40 ∧ Polling chip region contents (b ^^^ 0x40) after.flash := by
  refine (readFlash_settling polling.settling).mono (fun _ held => held) ?_
  rintro again after ⟨confined, array | ⟨remaining, toggle, before, busy, shown⟩⟩
  · exact .inl ⟨confined, array⟩
  · obtain ⟨_, array | ⟨left, expected, mode, opposite⟩⟩ := polling
    · simp [array] at before
    · rw [before] at mode
      injection mode with _ same
      subst same
      refine .inr ⟨?_, confined, .inr ⟨remaining, !toggle, busy, ?_⟩⟩
      · rw [shown, opposite]
        cases toggle <;> decide
      · rw [Bool.not_not]
        exact toggleBit_flip opposite

/-- Two reads with the same bit 6 mean that the chip is done. -/
theorem pollToggle_ensures (settling : Settling chip region contents state.flash) :
    (pollToggle chip.bus fuel dw).Ensures state (Safe chip region contents)
      fun _ after => Idle chip region contents after.flash := by
  refine (readFlash_settling settling).andThen ?_
  rintro b after ⟨confined, finished⟩
  have polling : Polling chip region contents b after.flash := by
    refine ⟨confined, finished.imp id ?_⟩
    rintro ⟨remaining, toggle, _, busy, shown⟩
    exact ⟨remaining, !toggle, busy, by rw [shown, Bool.not_not]⟩
  refine Program.loop_ensures
    (fun _ locals current => Polling chip region contents locals.1 current.flash)
    (fun _ _ held => held.1) ?_ polling
  intro _ locals current held
  refine (readFlash_polling held).andThen ?_
  rintro again next (idle | ⟨differs, polling⟩)
  · split
    · exact ⟨idle.confined, .inl idle.array⟩
    · exact idle
  · rw [if_pos differs]
    exact polling

/-- A block erase in the region, by either code. -/
theorem eraseBlock_ensures (is29xxx : chip.is28xxx = false)
    (idle : Idle chip region contents state.flash)
    (inside : region.Contains dw.toNat) :
    (eraseBlock chip.bus fuel dw).Ensures state (Safe chip region contents)
      fun _ after => Idle chip region contents after.flash := by
  refine (eraseCommand_ensures is29xxx (.sectorErase dw.toNat) idle
    (by simp [decode_29xxx is29xxx, decode29xxx]) inside).andThen ?_
  intro _ issued settling
  refine (pollToggle_ensures settling).andThen ?_
  intro dwCountTries polled idle
  split
  · refine (resetCommand_ensures is29xxx idle).andThen ?_
    intro _ reset idle
    refine (eraseCommand_ensures is29xxx (.sectorErase dw.toNat) idle
      (by simp [decode_29xxx is29xxx, decode29xxx]) inside).andThen ?_
    intro _ issued settling
    exact pollToggle_ensures settling
  · exact idle

/-- Programming a byte of the region. -/
theorem program29xxx_ensures {value : Byte} (is29xxx : chip.is28xxx = false)
    (idle : Idle chip region contents state.flash)
    (inside : region.Contains dw.toNat) :
    (program29xxx chip.bus fuel dw value).Ensures state (Safe chip region contents)
      fun _ after => Idle chip region contents after.flash := by
  have issued : Settling chip region contents
      (chip.issue (state.inMode .programSetup).flash (.busy 0 false) (.program dw.toNat value)) :=
    issue_settling (confined_inMode idle.confined) inside
  rw [program29xxx, Program.ensures_bind, ensures_unlock is29xxx idle.array, Program.ensures_bind,
    ensures_writeFlash .programSetup (by simp [decode_29xxx is29xxx, decode29xxx]), inMode_inMode,
    Program.ensures_bind, ensures_writeFlash_issue
      (by simp [decode_29xxx is29xxx, decode29xxx]; exact ⟨rfl, rfl⟩)]
  refine (pollToggle_ensures issued).andThen ?_
  intro _ after idle
  exact idle

/-- Leaving the status register for the array. -/
theorem leaveStatus_ensures {α : Type} {result : α} {address : UInt32}
    (is28xxx : chip.is28xxx = true) (reporting : Reporting chip region contents state.flash) :
    (do writeFlash chip.bus address 0x50
        writeFlash chip.bus address 0xff
        pure result : Driver FlashDevice α).Ensures state (Safe chip region contents)
      fun _ after => Idle chip region contents after.flash := by
  rw [Program.ensures_bind,
    ensures_writeFlash .status (by simp [reporting.status, decode_28xxx is28xxx, decode28xxx]),
    Program.ensures_bind,
    ensures_writeFlash .array (by simp [decode_28xxx is28xxx, decode28xxx]), inMode_inMode]
  exact ⟨confined_inMode reporting.confined, rfl⟩

/-- A read of the status register. -/
theorem readFlash_reporting (reporting : Reporting chip region contents state.flash) :
    (readFlash chip.bus dw).Ensures state (Safe chip region contents)
      fun _ after => Reporting chip region contents after.flash where
  confined := confined_read reporting.confined dw.toNat
  status := by simp [FlashChip.bus, FlashChip.read, reporting.status, FlashChip.afterRead]

theorem erase28xxx_ensures (is28xxx : chip.is28xxx = true)
    (idle : Idle chip region contents state.flash)
    (inside : region.Contains dw.toNat) :
    (erase28xxx chip.bus fuel dw).Ensures state (Safe chip region contents)
      fun _ after => Idle chip region contents after.flash := by
  have issued : Reporting chip region contents
      (chip.issue (state.inMode .erase28xxx).flash .status (.sectorErase dw.toNat)) :=
    ⟨confined_issue (confined_inMode idle.confined) inside, rfl⟩
  rw [erase28xxx, Program.ensures_bind,
    ensures_writeFlash .array (by simp [idle.array, decode_28xxx is28xxx, decode28xxx]),
    Program.ensures_bind,
    ensures_writeFlash .erase28xxx (by simp [decode_28xxx is28xxx, decode28xxx]), inMode_inMode,
    Program.ensures_bind, ensures_writeFlash_issue
      (by simp [decode_28xxx is28xxx, decode28xxx]; exact ⟨rfl, rfl⟩)]
  refine Program.Ensures.andThen (Program.loop_ensures
    (fun _ _ current => Reporting chip region contents current.flash)
    (fun _ _ held => held.confined) ?_ issued)
      fun _ _ reporting => leaveStatus_ensures is28xxx reporting
  intro _ locals current reporting
  obtain ⟨b, nCountMinSpin⟩ := locals
  dsimp only
  split
  · refine (readFlash_reporting reporting).andThen ?_
    intro b after reporting
    exact reporting
  · exact reporting

theorem program28xxx_ensures {value : Byte} (is28xxx : chip.is28xxx = true)
    (idle : Idle chip region contents state.flash)
    (inside : region.Contains dw.toNat) :
    (program28xxx chip.bus fuel dw value).Ensures state (Safe chip region contents)
      fun _ after => Idle chip region contents after.flash := by
  have issued : Reporting chip region contents
      (chip.issue (state.inMode .program28xxx).flash .status (.program dw.toNat value)) :=
    ⟨confined_issue (confined_inMode idle.confined) inside, rfl⟩
  rw [program28xxx, Program.ensures_bind,
    ensures_writeFlash .program28xxx (by simp [idle.array, decode_28xxx is28xxx, decode28xxx]),
    Program.ensures_bind, ensures_writeFlash_issue
      (by simp [decode_28xxx is28xxx, decode28xxx]; exact ⟨rfl, rfl⟩)]
  refine Program.Ensures.andThen (Program.loop_ensures
    (fun _ _ current => Reporting chip region contents current.flash)
    (fun _ _ held => held.confined) ?_ issued)
      fun _ _ reporting => leaveStatus_ensures is28xxx reporting
  intro _ locals current reporting
  obtain ⟨b, dwTimeToLive, nCountMinSpin⟩ := locals
  dsimp only
  generalize (if b &&& 0x80 = 0 then dwTimeToLive - 1 else dwTimeToLive) = left
  split
  · refine (readFlash_reporting reporting).andThen ?_
    intro b after reporting
    exact reporting
  · exact reporting

end Commands

end Cromwell.Flash
