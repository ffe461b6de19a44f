import Cromwell.Flash.Identification

/-!
# Chips that follow one convention

A chip of the table follows the 28xxx conventions or the 29xxx ones, and takes the
commands of the other for nothing. `BootFlashGetDescriptor` tries the 28xxx way first
and is content if the manufacturer ID differs from the first byte of the array. The
second byte, which it means to compare with the device ID, it compares with itself: a
28xxx chip whose array begins with its manufacturer ID is tried the 29xxx way as well.
-/

namespace Cromwell.Flash

open Cromwell.Std

/-! ## The chips -/

/-- Where the 29xxx unlock cycles stand. -/
inductive UnlockCycles
  | none | first | second
  deriving Repr, DecidableEq

/-- A chip as identification finds it: no command erases or programs it. -/
structure ProtocolDevice where
  array : Memory
  identifies : Bool
  unlock : UnlockCycles

/-- A chip of the table, its convention and what it shows of its locks. -/
structure ProtocolChip where
  entry : KnownFlashType
  listed : entry ∈ aknownflashtypesDefault.dropLast
  is28xxx : Bool
  identByte : Nat → Byte

namespace ProtocolChip

/-- Any write of `0x90` identifies a 28xxx chip, and `0xff` brings the array back. -/
def write28xxx (device : ProtocolDevice) (value : Byte) : ProtocolDevice :=
  if value = 0x90 then { device with identifies := true }
  else if value = 0xff then { device with identifies := false }
  else device

/-- The unlock cycles after a write. -/
def nextCycle (unlock : UnlockCycles) (address : Nat) (value : Byte) : UnlockCycles :=
  if address = 0x5555 ∧ value = 0xaa then .first
  else if unlock = .first ∧ address = 0x2aaa ∧ value = 0x55 then .second
  else .none

/-- Behind the unlock cycles `0x90` identifies a 29xxx chip, and `0xf0` brings the array back. -/
def write29xxx (device : ProtocolDevice) (address : Nat) (value : Byte) : ProtocolDevice :=
  { device with
    identifies :=
      if value = 0xf0 then false
      else device.identifies || (device.unlock = .second ∧ address = 0x5555 ∧ value = 0x90)
    unlock := nextCycle device.unlock address value }

variable (chip : ProtocolChip)

def write (device : ProtocolDevice) (address : Nat) (value : Byte) : ProtocolDevice :=
  if chip.is28xxx then write28xxx device value else write29xxx device address value

/-- What a read returns. -/
def read (device : ProtocolDevice) (address : Nat) : Byte :=
  if device.identifies then
    if address = 0 then chip.entry.bManufacturerId
    else if address = 1 then chip.entry.bDeviceId
    else chip.identByte address
  else device.array address

/-- The chip on the bus. -/
def bus : FlashBus ProtocolDevice where
  read device address := (chip.read device address, device)
  write := chip.write

/-- Every chip of the table is found by its IDs. -/
theorem known : knownFlashType aknownflashtypesDefault chip.entry.bManufacturerId
    chip.entry.bDeviceId = some chip.entry := by
  have each : ∀ entry ∈ aknownflashtypesDefault.dropLast,
      knownFlashType aknownflashtypesDefault entry.bManufacturerId entry.bDeviceId =
        some entry := by
    decide
  exact each chip.entry chip.listed

end ProtocolChip

/-! ## The two ways to identify -/

section Ways

variable {chip : ProtocolChip} {state : FlashState ProtocolDevice} {address : UInt32}
  {cut : FlashState ProtocolDevice → Prop}
  {returned : Identification → FlashState ProtocolDevice → Prop}

theorem ensures_readFlash {returned : Byte → FlashState ProtocolDevice → Prop} :
    (readFlash chip.bus address).Ensures state cut returned ↔
      returned (chip.read state.flash address.toNat) state := Iff.rfl

theorem ensures_writeFlash_write {value : Byte}
    {returned : Unit → FlashState ProtocolDevice → Prop} :
    (writeFlash chip.bus address value).Ensures state cut returned ↔
      returned () { state with flash := chip.write state.flash address.toNat value } := Iff.rfl

theorem setErrorInfo_flash (text : String) :
    (setErrorInfo text).Ensures state cut fun _ after => after.flash = state.flash := rfl

/-- The state with the array or the IDs on show. -/
def FlashState.showing (state : FlashState ProtocolDevice) (identifies : Bool)
    (unlock : UnlockCycles) : FlashState ProtocolDevice :=
  { state with flash := { state.flash with identifies, unlock } }

/-- The 28xxx way on a 28xxx chip. -/
theorem identify28xxx_28xxx (is28xxx : chip.is28xxx = true) :
    (identify28xxx chip.bus).Ensures state cut returned ↔
      returned ⟨chip.entry.bManufacturerId, chip.entry.bDeviceId, true⟩
        (state.showing false state.flash.unlock) := by
  simp [identify28xxx, ensures_readFlash, ensures_writeFlash_write, ProtocolChip.write,
    ProtocolChip.write28xxx, ProtocolChip.read, FlashState.showing, is28xxx]

/-- The 29xxx way on a 28xxx chip: the IDs are found, and stay on show. -/
theorem identify29xxx_28xxx (is28xxx : chip.is28xxx = true) :
    (identify29xxx chip.bus).Ensures state cut returned ↔
      returned ⟨chip.entry.bManufacturerId, chip.entry.bDeviceId, false⟩
        (state.showing true state.flash.unlock) := by
  simp [identify29xxx, unlock, ensures_readFlash, ensures_writeFlash_write, ProtocolChip.write,
    ProtocolChip.write28xxx, ProtocolChip.read, FlashState.showing, is28xxx]

/-- The 28xxx way on a 29xxx chip finds the contents. -/
theorem identify28xxx_29xxx (is29xxx : chip.is28xxx = false)
    (idle : state.flash.identifies = false) :
    (identify28xxx chip.bus).Ensures state cut returned ↔
      returned ⟨state.flash.array 0, state.flash.array 1, true⟩ (state.showing false .none) := by
  simp [identify28xxx, ensures_readFlash, ensures_writeFlash_write, ProtocolChip.write,
    ProtocolChip.write29xxx, ProtocolChip.nextCycle, ProtocolChip.read, FlashState.showing, is29xxx,
    idle]

/-- The 29xxx way on a 29xxx chip. -/
theorem identify29xxx_29xxx (is29xxx : chip.is28xxx = false) :
    (identify29xxx chip.bus).Ensures state cut returned ↔
      returned ⟨chip.entry.bManufacturerId, chip.entry.bDeviceId, false⟩
        (state.showing false .none) := by
  simp [identify29xxx, unlock, ensures_readFlash, ensures_writeFlash_write, ProtocolChip.write,
    ProtocolChip.write29xxx, ProtocolChip.nextCycle, ProtocolChip.read, FlashState.showing, is29xxx]

/-- Where the second byte reads as before, the first one decides alone. -/
theorem differsFromNormalMode_same {returned : Bool → FlashState ProtocolDevice → Prop}
    {normal0 normal1 id : Byte} (same : chip.read state.flash 1 = normal1) :
    (differsFromNormalMode chip.bus normal0 normal1 id).Ensures state cut returned ↔
      returned (decide (normal0 ≠ id)) state := by
  by_cases equal : normal0 = id
  · simp [differsFromNormalMode, equal, ensures_readFlash, same]
  · simp [differsFromNormalMode, equal]

theorem differsFromNormalMode_keeps (normal0 normal1 id : Byte) :
    (differsFromNormalMode chip.bus normal0 normal1 id).Ensures state cut
      fun _ after => after = state := by
  unfold differsFromNormalMode
  split
  · rfl
  · rfl

/-- The array begins with the manufacturer ID of a 28xxx chip. -/
def ProtocolChip.Masked (chip : ProtocolChip) (array : Memory) : Prop :=
  chip.is28xxx = true ∧ array 0 = chip.entry.bManufacturerId

instance (chip : ProtocolChip) (array : Memory) : Decidable (chip.Masked array) := by
  unfold ProtocolChip.Masked
  infer_instance

/-- The IDs are found always. A 28xxx chip that the array masks is taken for a 29xxx one,
and still shows its IDs. -/
theorem identify_array (idle : state.flash.identifies = false) :
    (identify chip.bus (state.flash.array 0) (state.flash.array 1)).Ensures state cut
      fun ids after =>
        ids = ⟨chip.entry.bManufacturerId, chip.entry.bDeviceId,
          chip.is28xxx && !decide (chip.Masked state.flash.array)⟩ ∧
        after.flash.identifies = decide (chip.Masked state.flash.array) := by
  unfold identify
  rw [Program.ensures_bind]
  cases way : chip.is28xxx with
  | true =>
      rw [identify28xxx_28xxx way, Program.ensures_bind,
        differsFromNormalMode_same (by simp [ProtocolChip.read, FlashState.showing])]
      by_cases same : state.flash.array 0 = chip.entry.bManufacturerId
      · have masked : chip.Masked state.flash.array := ⟨way, same⟩
        simp only [same, ne_eq, not_true_eq_false, decide_false, Bool.false_eq_true, if_false]
        rw [Program.ensures_bind, identify29xxx_28xxx way]
        refine (differsFromNormalMode_keeps _ _ _).andThen ?_
        rintro _ _ rfl
        simp [masked, FlashState.showing]
      · have unmasked : ¬chip.Masked state.flash.array := fun masked => same masked.2
        simp [same, unmasked, FlashState.showing]
  | false =>
      have unmasked : ¬chip.Masked state.flash.array := by
        simp [ProtocolChip.Masked, way]
      rw [identify28xxx_29xxx way idle, Program.ensures_bind,
        differsFromNormalMode_same (by simp [ProtocolChip.read, FlashState.showing])]
      simp only [ne_eq, not_true_eq_false, decide_false, Bool.false_eq_true, if_false]
      rw [Program.ensures_bind, identify29xxx_29xxx way]
      refine (differsFromNormalMode_keeps _ _ _).andThen ?_
      rintro _ _ rfl
      simp [unmasked, FlashState.showing]

/-! ## The descriptor -/

/-- What identification is to tell of a chip, and how it is to leave it. -/
structure ProtocolChip.Identified (chip : ProtocolChip) (found : Bool × ObjectFlash)
    (after : FlashState ProtocolDevice) : Prop where
  known : found.1 = true
  chipLength : found.2.dwLengthInBytes = chip.entry.dwLengthInBytes
  conventions : found.2.fDetectedUsing28xxxConventions = chip.is28xxx
  array : after.flash.identifies = false

/-- The locks are read of a 28xxx chip, which then shows its array again. -/
theorem readLocks_array {fuel : Nat} (enough : 33 ≤ fuel) (is28xxx : chip.is28xxx = true)
    {dwLengthInBytes : UInt32} (size : dwLengthInBytes.toNat ≤ 0x200000) :
    (readLocks chip.bus fuel dwLengthInBytes).Ensures state cut
      fun _ after => after.flash.identifies = false := by
  rw [readLocks, Program.ensures_bind, ensures_writeFlash_write, Program.ensures_bind,
    ensures_readFlash, Program.ensures_bind]
  refine Program.loop_ensures
    (fun left locals _ => locals.1.toNat + left * 0x10000 = fuel * 0x10000 ∧
      locals.1.toNat < 0x210000) ?_ ?_ ⟨Nat.zero_add _, Nat.zero_lt_succ _⟩
  · rintro locals cutOff ⟨passes, bounded⟩
    omega
  · rintro left ⟨n, locks⟩ current ⟨passes, bounded⟩
    dsimp only at passes bounded ⊢
    split
    next more =>
      have below : n.toNat < 0x200000 := Nat.lt_of_lt_of_le (UInt32.lt_iff_toNat_lt.mp more) size
      have next : (n + 0x10000).toNat = n.toNat + 0x10000 := by
        rw [UInt32.toNat_add]
        change (n.toNat + 0x10000) % 2 ^ 32 = _
        omega
      rw [Program.ensures_bind, ensures_writeFlash_write, Program.ensures_bind, ensures_readFlash]
      refine ⟨?_, ?_⟩
      · rw [next]
        omega
      · rw [next]
        omega
    next =>
      simp [ensures_writeFlash_write, ProtocolChip.write, ProtocolChip.write28xxx, is28xxx,
        Pass.Ends]

theorem ProtocolChip.length_le (chip : ProtocolChip) :
    chip.entry.dwLengthInBytes.toNat ≤ 0x200000 :=
  (knownFlashType_length (Option.mem_def.mpr chip.known)).2

/-- The chip is in the table and is described; what the array decides is the way it is taken
to follow, and whether it shows the array again. -/
theorem bootFlashGetDescriptor_array (chip : ProtocolChip)
    (cut : FlashState ProtocolDevice → Prop) {fuel : Nat} (enough : 33 ≤ fuel)
    (idle : state.flash.identifies = false) (pof : ObjectFlash) :
    (bootFlashGetDescriptor chip.bus fuel pof aknownflashtypesDefault).Ensures state cut
      fun found after =>
        found.1 = true ∧ found.2.dwLengthInBytes = chip.entry.dwLengthInBytes ∧
        found.2.fDetectedUsing28xxxConventions =
          (chip.is28xxx && !decide (chip.Masked state.flash.array)) ∧
        after.flash.identifies = decide (chip.Masked state.flash.array) := by
  refine (setErrorInfo_flash "").andThen ?_
  intro _ current same
  rw [← same] at idle ⊢
  have first : ∀ address, chip.read current.flash address = current.flash.array address := by
    intro address
    simp [ProtocolChip.read, idle]
  rw [Program.ensures_bind, ensures_readFlash, Program.ensures_bind, ensures_readFlash, first,
    first]
  refine Program.Ensures.andThen (identify_array idle) ?_
  rintro _ after ⟨rfl, shows⟩
  dsimp only at shows ⊢
  rw [chip.known]
  dsimp only
  rw [Program.ensures_bind, describeKnown]
  dsimp only
  split
  next way =>
    have is28xxx : chip.is28xxx = true := (Bool.and_eq_true_iff.mp way).1
    refine (readLocks_array enough is28xxx chip.length_le).andThen ?_
    rintro ⟨masterLock, locks⟩ left array
    have unmasked : decide (chip.Masked current.flash.array) = false := by
      simpa using (Bool.and_eq_true_iff.mp way).2
    exact ⟨rfl, rfl, rfl, array.trans unmasked.symm⟩
  next => exact ⟨rfl, rfl, rfl, shows⟩

end Ways

section Identified

variable (chip : ProtocolChip) (pof : ObjectFlash) {fuel : Nat}
  {state : FlashState ProtocolDevice}

theorem not_identified_of_masked (enough : 33 ≤ fuel) (idle : state.flash.identifies = false)
    (masked : chip.Masked state.flash.array) :
    ¬(bootFlashGetDescriptor chip.bus fuel pof aknownflashtypesDefault).Ensures state
      (fun _ => False) chip.Identified := by
  intro identified
  have described := bootFlashGetDescriptor_array chip (fun _ => False) enough idle pof
  refine ((identified.and described).mono (fun _ cut => cut.1) ?_).const
  rintro found after ⟨found, _, _, _, shows⟩
  simp [found.array, masked] at shows

/-- Identification tells a chip of the table rightly and leaves it in array mode, unless it
is a 28xxx chip whose array begins with its manufacturer ID. -/
theorem bootFlashGetDescriptor_identifies_iff (enough : 33 ≤ fuel)
    (idle : state.flash.identifies = false) :
    (bootFlashGetDescriptor chip.bus fuel pof aknownflashtypesDefault).Ensures state
        (fun _ => False) chip.Identified ↔
      (chip.is28xxx = true → state.flash.array 0 ≠ chip.entry.bManufacturerId) := by
  constructor
  · intro identified is28xxx same
    exact not_identified_of_masked chip pof enough idle ⟨is28xxx, same⟩ identified
  · intro unmasked
    have clear : ¬chip.Masked state.flash.array := fun masked => unmasked masked.1 masked.2
    refine (bootFlashGetDescriptor_array chip (fun _ => False) enough idle pof).mono
      (fun _ cut => cut) ?_
    rintro found after ⟨known, chipLength, conventions, array⟩
    exact ⟨known, chipLength, by simp [conventions, clear], by simp [array, clear]⟩

end Identified

/-- The Sharp chip, without locks. -/
def sharpChip : ProtocolChip where
  entry := ⟨0x89, 0xa6, "Sharp LHF08CH1", 0x100000⟩
  listed := by decide
  is28xxx := true
  identByte _ := 0

/-- A chip in array mode, full of one byte. -/
def filledWith (value : Byte) : FlashState ProtocolDevice where
  flash := { array := fun _ => value, identifies := false, unlock := .none }
  events := []
  szAdditionalErrorInfo := ""

theorem bootFlashGetDescriptor_identifies_blank :
    (bootFlashGetDescriptor sharpChip.bus 33 (freshObject 0 1) aknownflashtypesDefault).Ensures
      (filledWith 0xff) (fun _ => False) sharpChip.Identified := by
  have idle : (filledWith 0xff).flash.identifies = false := rfl
  have unmasked : (filledWith 0xff).flash.array 0 ≠ sharpChip.entry.bManufacturerId := by decide
  rw [bootFlashGetDescriptor_identifies_iff sharpChip (freshObject 0 1) (Nat.le_refl 33) idle]
  exact fun _ => unmasked

/-- With its own manufacturer ID in front, the chip is taken for one it is not. -/
theorem not_bootFlashGetDescriptor_identifies :
    ¬(bootFlashGetDescriptor sharpChip.bus 33 (freshObject 0 1) aknownflashtypesDefault).Ensures
      (filledWith 0x89) (fun _ => False) sharpChip.Identified := by
  have masked : sharpChip.Masked (filledWith 0x89).flash.array := ⟨rfl, rfl⟩
  exact not_identified_of_masked sharpChip (freshObject 0 1) (Nat.le_refl 33) rfl masked

end Cromwell.Flash
