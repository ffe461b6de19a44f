import Cromwell.Flash.Reflash

/-!
# Flash chips

A chip is an array of bytes, split into erase sectors, behind a decoder of
commands. It follows the 28xxx or the 29xxx conventions, and knows the commands
of its own only. Each command that is issued takes effect or does nothing, as the
chip pleases. Outside command sequences reads return the array.
-/

namespace Cromwell.Flash

open Cromwell.Std

/-- The commands that change the array. -/
inductive FlashCommand where
  | sectorErase (address : Nat)
  | chipErase
  | program (address : Nat) (data : Byte)
  deriving Repr, DecidableEq

/-- Where a chip is in a command sequence. -/
inductive FlashMode where
  /-- No command is under way, and reads return the array. -/
  | array
  /-- Identification. -/
  | ident
  /-- The 29xxx unlock cycles. -/
  | unlocking
  | unlocked
  /-- The 29xxx erase command, and its own unlock cycles. -/
  | eraseSetup
  | eraseUnlocking
  | eraseUnlocked
  /-- The 29xxx program command. -/
  | programSetup
  /-- A 29xxx command at work: bit 6 toggles on this many reads. -/
  | busy (remaining : Nat) (toggle : Bool)
  /-- The first cycles of the 28xxx erase and program commands; from then on the status
  register is read. -/
  | erase28xxx
  | program28xxx
  | status
  deriving Repr, DecidableEq

/-- How the commands of a chip fare. The streams are indexed by the number of commands
and of reads so far. -/
structure FlashConduct where
  takesEffect : Nat → Bool
  busyReads : Nat → Nat
  busyToggle : Nat → Bool
  busyByte : Nat → Byte
  statusByte : Nat → Byte

/-- A chip: what it is, and how its commands fare. -/
structure FlashChip extends FlashConduct where
  bManufacturerId : Byte
  bDeviceId : Byte
  lengthInBytes : Nat
  /-- A chip with the IDs of a known type has the length of that type. -/
  known_length : ∀ entry ∈ knownFlashType aknownflashtypesDefault bManufacturerId bDeviceId,
    entry.dwLengthInBytes.toNat = lengthInBytes
  /-- The number of the sector an address lies in. -/
  sectorOf : Nat → Nat
  /-- Whether the chip follows the 28xxx conventions, or else the 29xxx ones. -/
  is28xxx : Bool
  /-- What identification reads behind the two IDs. -/
  identByte : Nat → Byte

/-- The chip in operation. -/
structure FlashDevice where
  array : Memory
  mode : FlashMode
  issued : List FlashCommand
  reads : Nat

/-- Bit 6 as a busy chip shows it. -/
def toggleBit (toggle : Bool) : Byte := if toggle then 0x40 else 0

/-- A busy chip shows its toggle in bit 6, whatever the other bits are. -/
theorem busy_bit (value : Byte) (toggle : Bool) :
    (value &&& 0xbf ||| toggleBit toggle) &&& 0x40 = toggleBit toggle := by
  apply UInt8.eq_of_toBitVec_eq
  have masked : value.toBitVec &&& 0xbf#8 &&& 0x40#8 = 0#8 := by
    rw [BitVec.and_assoc]
    exact BitVec.and_zero
  cases toggle with
  | false => simpa [toggleBit] using masked
  | true => simp [toggleBit, BitVec.and_or_distrib_right, masked]

/-- Flipping bit 6 takes a toggle to the next one. -/
theorem toggleBit_flip {value : Byte} {toggle : Bool}
    (shown : value &&& 0x40 = toggleBit (!toggle)) :
    (value ^^^ 0x40) &&& 0x40 = toggleBit toggle := by
  have flipped : (value ^^^ 0x40) &&& 0x40 = (value &&& 0x40) ^^^ 0x40 := by
    apply UInt8.eq_of_toBitVec_eq
    ext index
    simp only [UInt8.toBitVec_and, UInt8.toBitVec_xor, BitVec.getElem_and, BitVec.getElem_xor]
    grind
  rw [flipped, shown]
  cases toggle with
  | false => rfl
  | true => rfl

namespace FlashChip

variable (chip : FlashChip)

/-- What is read in identification mode. -/
def idByte (address : Nat) : Byte :=
  if address = 0 then chip.bManufacturerId
  else if address = 1 then chip.bDeviceId
  else chip.identByte address

/-- What a command does to the array when it takes effect. -/
def effect (array : Memory) : FlashCommand → Memory
  | .sectorErase address => fun x =>
    if chip.sectorOf x = chip.sectorOf address then 0xff else array x
  | .chipErase => fun _ => 0xff
  | .program address data => array.set address (array address &&& data)

/-- A 28xxx chip takes a command at any time, and stays in its mode until there is one: it
leaves identification on `0xff` only. -/
def decode28xxx (mode : FlashMode) (address : Nat) (value : Byte) :
    FlashMode × Option FlashCommand :=
  match mode with
  | .erase28xxx => (.status, if value = 0xd0 then some (.sectorErase address) else none)
  | .program28xxx => (.status, some (.program address value))
  | mode =>
    if value = 0xff then (.array, none)
    else if value = 0x90 then (.ident, none)
    else if value = 0x20 then (.erase28xxx, none)
    else if value = 0x40 then (.program28xxx, none)
    else (mode, none)

/-- A 29xxx chip takes a command behind its unlock cycles, and leaves identification on
`0xf0`. -/
def decode29xxx (mode : FlashMode) (address : Nat) (value : Byte) :
    FlashMode × Option FlashCommand :=
  match mode with
  | .ident => (if value = 0xf0 then .array else .ident, none)
  | .unlocking => (if address = 0x2aaa ∧ value = 0x55 then .unlocked else .array, none)
  | .unlocked =>
    if address ≠ 0x5555 then (.array, none)
    else if value = 0x80 then (.eraseSetup, none)
    else if value = 0xa0 then (.programSetup, none)
    else if value = 0x90 then (.ident, none)
    else (.array, none)
  | .eraseSetup => (if address = 0x5555 ∧ value = 0xaa then .eraseUnlocking else .array, none)
  | .eraseUnlocking =>
    (if address = 0x2aaa ∧ value = 0x55 then .eraseUnlocked else .array, none)
  | .eraseUnlocked =>
    if value = 0x50 ∨ value = 0x30 then (.busy 0 false, some (.sectorErase address))
    else if address = 0x5555 ∧ value = 0x10 then (.busy 0 false, some .chipErase)
    else (.array, none)
  | .programSetup => (.busy 0 false, some (.program address value))
  | .busy remaining toggle => (.busy remaining toggle, none)
  | _ => (if address = 0x5555 ∧ value = 0xaa then .unlocking else .array, none)

/-- The mode after a write, and the command the write completes. -/
def decode (mode : FlashMode) (address : Nat) (value : Byte) : FlashMode × Option FlashCommand :=
  if chip.is28xxx then decode28xxx mode address value else decode29xxx mode address value

theorem decode_28xxx {chip : FlashChip} {mode : FlashMode} {address : Nat} {value : Byte}
    (is28xxx : chip.is28xxx = true) :
    chip.decode mode address value = decode28xxx mode address value := if_pos is28xxx

theorem decode_29xxx {chip : FlashChip} {mode : FlashMode} {address : Nat} {value : Byte}
    (is29xxx : chip.is28xxx = false) :
    chip.decode mode address value = decode29xxx mode address value := by
  simp [decode, is29xxx]

/-- A 29xxx command keeps the chip busy for as long as it pleases. -/
def settle (count : Nat) : FlashMode → FlashMode
  | .busy _ _ => .busy (chip.busyReads count) (chip.busyToggle count)
  | mode => mode

/-- A command is issued, and takes effect or not. -/
def issue (device : FlashDevice) (mode : FlashMode) (command : FlashCommand) : FlashDevice :=
  { device with
    array :=
      if chip.takesEffect device.issued.length then chip.effect device.array command
      else device.array
    mode := chip.settle device.issued.length mode
    issued := device.issued ++ [command] }

/-- A write cycle. -/
def write (device : FlashDevice) (address : Nat) (value : Byte) : FlashDevice :=
  match chip.decode device.mode address value with
  | (mode, none) => { device with mode }
  | (mode, some command) => chip.issue device mode command

/-- What a read returns. -/
def value (device : FlashDevice) (address : Nat) : Byte :=
  match device.mode with
  | .ident => chip.idByte address
  | .erase28xxx | .program28xxx | .status => chip.statusByte device.reads
  | .busy (_ + 1) toggle =>
    chip.busyByte device.reads &&& 0xbf ||| toggleBit toggle
  | _ => device.array address

/-- The mode after a read. -/
def afterRead : FlashMode → FlashMode
  | .busy 0 _ => .array
  | .busy (remaining + 1) toggle => .busy remaining !toggle
  | mode => mode

/-- A read cycle. -/
def read (device : FlashDevice) (address : Nat) : Byte × FlashDevice :=
  (chip.value device address,
    { device with mode := afterRead device.mode, reads := device.reads + 1 })

/-- The chip on the bus. -/
def bus : FlashBus FlashDevice where
  read := chip.read
  write := chip.write

end FlashChip

/-- A chip that has just been powered up. -/
def poweredUp (contents : Memory) : FlashState FlashDevice where
  flash := { array := contents, mode := .array, issued := [], reads := 0 }
  events := []
  szAdditionalErrorInfo := ""

end Cromwell.Flash
