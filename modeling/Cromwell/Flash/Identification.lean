import Cromwell.Flash.Written

/-!
# Identifying a chip

Identification finds the IDs of the chip, whichever conventions it follows. It takes a chip
for a 28xxx if that way finds IDs the contents can be told from, and looks at the master lock
of such a chip only. All of it leaves the array alone. A 28xxx chip whose array begins with
its manufacturer ID is tried the 29xxx way as well, which leaves it in identification mode.
-/

namespace Cromwell.Flash

open Cromwell.Std FlashChip

variable {chip : FlashChip} {start : FlashDevice} {contents : Memory} {mode : FlashMode}
  {fuel : Nat} {pof : ObjectFlash} {dw : UInt32} {state : FlashState FlashDevice}
  {cut : FlashState FlashDevice → Prop}

/-- Since the start nothing has happened to the chip but reads and changes of its mode. -/
structure InMode (start : FlashDevice) (mode : FlashMode) (device : FlashDevice) : Prop where
  mode : device.mode = mode
  array : device.array = start.array
  issued : device.issued = start.issued

/-- The 28xxx way finds the IDs, and can tell them from the contents. -/
def FlashChip.SeenAs28xxx (chip : FlashChip) (contents : Memory) : Prop :=
  chip.is28xxx = true ∧ contents 0 ≠ chip.bManufacturerId

instance : Decidable (chip.SeenAs28xxx contents) := by
  unfold FlashChip.SeenAs28xxx
  infer_instance

/-- The contents hide that the 28xxx way has found the IDs. -/
def FlashChip.Masked (chip : FlashChip) (contents : Memory) : Prop :=
  chip.is28xxx = true ∧ contents 0 = chip.bManufacturerId

instance : Decidable (chip.Masked contents) := by
  unfold FlashChip.Masked
  infer_instance

/-- The mode identification leaves the chip in. -/
def FlashChip.leftMode (chip : FlashChip) (contents : Memory) : FlashMode :=
  if chip.Masked contents then .ident else .array

/-- The chip passes the checks: its type is known, and its master lock is not seen set. -/
def FlashChip.Accepted (chip : FlashChip) (contents : Memory) : Prop :=
  (knownFlashType aknownflashtypesDefault chip.bManufacturerId chip.bDeviceId).isSome ∧
    (chip.SeenAs28xxx contents → chip.identByte 3 = 0)

instance : Decidable (chip.Accepted contents) := by
  unfold FlashChip.Accepted
  infer_instance

/-! ## Cycles -/

/-- The mode after a bare identify command, and after the 29xxx identification. -/
def FlashChip.identifyMode (chip : FlashChip) : FlashMode :=
  if chip.is28xxx then .ident else .array

/-- The modes of the 28xxx identification. -/
def FlashChip.Quiet (chip : FlashChip) (mode : FlashMode) : Prop :=
  mode = .array ∨ mode = chip.identifyMode

theorem FlashChip.Quiet.cases (quiet : chip.Quiet mode) :
    mode = .array ∨ chip.is28xxx = true ∧ mode = .ident := by
  rcases quiet with array | identify
  · exact .inl array
  · unfold identifyMode at identify
    split at identify
    next is28xxx => exact .inr ⟨is28xxx, identify⟩
    next => exact .inl identify

/-- In these modes a read shows the array or the IDs. -/
theorem FlashChip.Quiet.readable (quiet : chip.Quiet mode) : mode = .array ∨ mode = .ident :=
  quiet.cases.imp_right And.right

theorem FlashChip.quiet_leftMode (chip : FlashChip) (contents : Memory) :
    chip.Quiet (chip.leftMode contents) := by
  unfold leftMode Quiet identifyMode
  split
  next masked => simp [masked.1]
  next => exact .inl rfl

section Cycles

variable {returned : Unit → FlashState FlashDevice → Prop}

/-- The bare identify command. -/
theorem ensures_bareIdentify (quiet : chip.Quiet state.flash.mode) :
    (writeFlash chip.bus 0x5555 0x90).Ensures state cut returned ↔
      returned () (state.inMode chip.identifyMode) := by
  apply ensures_writeFlash
  rcases quiet.cases with array | ⟨is28xxx, ident⟩
  · cases convention : chip.is28xxx with
    | true =>
        simp [array, decode_28xxx convention, decode28xxx, FlashChip.identifyMode, convention]
    | false =>
        simp [array, decode_29xxx convention, decode29xxx, FlashChip.identifyMode, convention]
  · simp [ident, decode_28xxx is28xxx, decode28xxx, FlashChip.identifyMode, is28xxx]

/-- `0x50` clears the status register, and does nothing else. -/
theorem ensures_clear (is28xxx : chip.is28xxx = true) (quiet : chip.Quiet state.flash.mode) :
    (writeFlash chip.bus 0x5555 0x50).Ensures state cut returned ↔ returned () state := by
  apply ensures_writeFlash
  rcases quiet.readable with array | ident
  · simp [array, decode_28xxx is28xxx, decode28xxx]
  · simp [ident, decode_28xxx is28xxx, decode28xxx]

/-- The 28xxx way back to the array. -/
theorem ensures_readArray (quiet : chip.Quiet state.flash.mode) :
    (writeFlash chip.bus 0x5555 0xff).Ensures state cut returned ↔
      returned () (state.inMode .array) := by
  apply ensures_writeFlash
  rcases quiet.cases with array | ⟨is28xxx, ident⟩
  · cases convention : chip.is28xxx with
    | true => simp [array, decode_28xxx convention, decode28xxx]
    | false => simp [array, decode_29xxx convention, decode29xxx]
  · simp [ident, decode_28xxx is28xxx, decode28xxx]

/-- A 28xxx chip takes none of these bytes for a command. -/
theorem ensures_writeFlash_other {address : UInt32} {value : Byte}
    (is28xxx : chip.is28xxx = true) (quiet : mode = .array ∨ mode = .ident)
    (held : state.flash.mode = mode)
    (other : value ≠ 0xff ∧ value ≠ 0x90 ∧ value ≠ 0x20 ∧ value ≠ 0x40) :
    (writeFlash chip.bus address value).Ensures state cut returned ↔ returned () state := by
  apply ensures_writeFlash
  obtain ⟨array, ident, erase, program⟩ := other
  rcases quiet with rfl | rfl
  · simp [held, decode_28xxx is28xxx, decode28xxx, array, ident, erase, program]
  · simp [held, decode_28xxx is28xxx, decode28xxx, array, ident, erase, program]

/-- Nor does it take the unlock cycles for one. -/
theorem ensures_unlock_28xxx (is28xxx : chip.is28xxx = true)
    (quiet : mode = .array ∨ mode = .ident) (held : state.flash.mode = mode) :
    (unlock chip.bus).Ensures state cut returned ↔ returned () state := by
  rw [unlock, Program.ensures_bind, ensures_writeFlash_other is28xxx quiet held (by decide),
    ensures_writeFlash_other is28xxx quiet held (by decide)]

end Cycles

theorem InMode.inMode (held : InMode start mode state.flash) (next : FlashMode) :
    InMode start next (state.inMode next).flash :=
  ⟨rfl, held.array, held.issued⟩

/-- What reads return in array and in identification mode. -/
def FlashChip.shown (chip : FlashChip) (contents : Memory) (mode : FlashMode) : Memory :=
  if mode = .ident then chip.idByte else contents

@[simp] theorem FlashChip.shown_array (contents : Memory) :
    chip.shown contents .array = contents := rfl

/-- A read in array or identification mode. -/
theorem readFlash_ensures (held : InMode start mode state.flash)
    (quiet : mode = .array ∨ mode = .ident) :
    (readFlash chip.bus dw).Ensures state cut fun b after =>
      InMode start mode after.flash ∧ b = chip.shown start.array mode dw.toNat := by
  obtain ⟨rfl, same, issued⟩ := held
  rcases quiet with array | ident
  · refine ⟨⟨?_, same, issued⟩, ?_⟩
    · simp [FlashChip.bus, FlashChip.read, array, FlashChip.afterRead]
    · simp [FlashChip.bus, FlashChip.read, FlashChip.value, FlashChip.shown, array, same]
  · refine ⟨⟨?_, same, issued⟩, ?_⟩
    · simp [FlashChip.bus, FlashChip.read, ident, FlashChip.afterRead]
    · simp [FlashChip.bus, FlashChip.read, FlashChip.value, FlashChip.shown, ident]

/-- In array mode the contents are read. -/
theorem readFlash_contents (held : InMode start .array state.flash) :
    (readFlash chip.bus dw).Ensures state cut fun b after =>
      InMode start .array after.flash ∧ b = start.array dw.toNat :=
  readFlash_ensures held (.inl rfl)

/-! ## Identification -/

/-- The 28xxx way finds the IDs, or the contents where the chip does not answer it. -/
theorem identify28xxx_finds (held : InMode start mode state.flash) (quiet : chip.Quiet mode) :
    (identify28xxx chip.bus).Ensures state cut fun ids after =>
      InMode start .array after.flash ∧ ids = ⟨chip.shown start.array chip.identifyMode 0,
        chip.shown start.array chip.identifyMode 1, true⟩ := by
  have clear : chip.Quiet FlashMode.array := .inl rfl
  have identifying : chip.Quiet chip.identifyMode := .inr rfl
  rw [← held.mode] at quiet
  rw [identify28xxx, Program.ensures_bind, ensures_readArray quiet, Program.ensures_bind,
    ensures_bareIdentify clear]
  refine (readFlash_ensures (held.inMode chip.identifyMode) identifying.readable).andThen ?_
  rintro manufacturer read ⟨held, rfl⟩
  rw [Program.ensures_bind, ensures_bareIdentify (.inr held.mode)]
  refine (readFlash_ensures (held.inMode chip.identifyMode) identifying.readable).andThen ?_
  rintro device again ⟨held', rfl⟩
  rw [Program.ensures_bind, ensures_readArray (.inr held'.mode)]
  exact ⟨held'.inMode .array, rfl⟩

/-- The IDs are read in identification mode. -/
theorem readIds_finds {result : Byte → Byte → Driver FlashDevice Identification}
    {returned : Identification → FlashState FlashDevice → Prop}
    (held : InMode start .ident state.flash)
    (after : ∀ read : FlashState FlashDevice, InMode start .ident read.flash →
      (result chip.bManufacturerId chip.bDeviceId).Ensures read cut returned) :
    (do let bManufacturerId ← readFlash chip.bus 0
        let bDeviceId ← readFlash chip.bus 1
        result bManufacturerId bDeviceId : Driver FlashDevice Identification).Ensures state cut
      returned := by
  refine (readFlash_ensures held (.inr rfl)).andThen ?_
  rintro _ read ⟨held, rfl⟩
  refine (readFlash_ensures held (.inr rfl)).andThen ?_
  rintro _ again ⟨held, rfl⟩
  exact after again held

/-- The 29xxx way always finds the IDs, but `0xf0` does not bring the array of a 28xxx chip
back. -/
theorem identify29xxx_finds (held : InMode start .array state.flash) :
    (identify29xxx chip.bus).Ensures state cut fun ids after =>
      InMode start chip.identifyMode after.flash ∧
        ids = ⟨chip.bManufacturerId, chip.bDeviceId, false⟩ := by
  cases convention : chip.is28xxx with
  | true =>
      have other : (0xf0 : Byte) ≠ 0xff ∧ (0xf0 : Byte) ≠ 0x90 ∧ (0xf0 : Byte) ≠ 0x20 ∧
          (0xf0 : Byte) ≠ 0x40 := by decide
      have identify : chip.identifyMode = .ident := by simp [FlashChip.identifyMode, convention]
      rw [identify29xxx, Program.ensures_bind,
        ensures_writeFlash_other convention (.inl rfl) held.mode other,
        Program.ensures_bind, ensures_unlock_28xxx convention (.inl rfl) held.mode,
        Program.ensures_bind, ensures_writeFlash_other convention (.inl rfl) held.mode other,
        Program.ensures_bind, ensures_unlock_28xxx convention (.inl rfl) held.mode,
        Program.ensures_bind, ensures_bareIdentify (.inl held.mode), identify]
      refine readIds_finds (held.inMode .ident) fun read held => ?_
      rw [Program.ensures_bind, ensures_writeFlash_other convention (.inr rfl) held.mode other]
      exact ⟨held, rfl⟩
  | false =>
      have identify : chip.identifyMode = .array := by simp [FlashChip.identifyMode, convention]
      rw [identify29xxx, Program.ensures_bind,
        ensures_writeFlash .array (by simp [held.mode, decode_29xxx convention, decode29xxx]),
        Program.ensures_bind, ensures_unlock convention rfl, Program.ensures_bind,
        ensures_writeFlash .array (by simp [decode_29xxx convention, decode29xxx]),
        Program.ensures_bind, ensures_unlock convention rfl, Program.ensures_bind,
        ensures_writeFlash .ident (by simp [decode_29xxx convention, decode29xxx]), identify]
      refine readIds_finds (held.inMode .ident) fun read held => ?_
      rw [Program.ensures_bind,
        ensures_writeFlash .array (by simp [held.mode, decode_29xxx convention, decode29xxx])]
      exact ⟨held.inMode .array, rfl⟩

/-- The second byte is compared with what the flash shows there now. -/
theorem differsFromNormalMode_finds {normal0 normal1 id : Byte}
    (held : InMode start mode state.flash) (quiet : mode = .array ∨ mode = .ident) :
    (differsFromNormalMode chip.bus normal0 normal1 id).Ensures state cut
      fun differs after => InMode start mode after.flash ∧
        differs = decide (normal0 ≠ id ∨ normal1 ≠ chip.shown start.array mode 1) := by
  unfold differsFromNormalMode
  split
  next other => exact ⟨held, (decide_eq_true (.inl other)).symm⟩
  next same =>
    refine (readFlash_ensures held quiet).andThen ?_
    rintro again read ⟨held, rfl⟩
    refine ⟨held, ?_⟩
    simp only [same, false_or]
    rfl

/-- The IDs are found, by the 28xxx way if it can tell them from the contents. -/
theorem identify_finds (held : InMode start .array state.flash) :
    (identify chip.bus (start.array 0) (start.array 1)).Ensures state cut fun ids after =>
      InMode start (chip.leftMode start.array) after.flash ∧
        ids = ⟨chip.bManufacturerId, chip.bDeviceId, decide (chip.SeenAs28xxx start.array)⟩ := by
  refine (identify28xxx_finds held (.inl rfl)).andThen ?_
  rintro _ tried ⟨held, rfl⟩
  refine (differsFromNormalMode_finds held (.inl rfl)).andThen ?_
  rintro _ compared ⟨held, rfl⟩
  have seen : decide (start.array 0 ≠ chip.shown start.array chip.identifyMode 0 ∨
      start.array 1 ≠ chip.shown start.array .array 1) =
      decide (chip.SeenAs28xxx start.array) := by
    cases convention : chip.is28xxx with
    | false =>
        simp [FlashChip.shown, FlashChip.identifyMode, FlashChip.SeenAs28xxx, convention]
    | true =>
        simp [FlashChip.shown, FlashChip.idByte, FlashChip.identifyMode, FlashChip.SeenAs28xxx,
          convention]
  dsimp only
  rw [seen]
  by_cases is28xxx : chip.SeenAs28xxx start.array
  · have array : chip.leftMode start.array = .array := if_neg fun masked => is28xxx.2 masked.2
    rw [if_pos (decide_eq_true is28xxx), decide_eq_true is28xxx, array]
    refine ⟨held, ?_⟩
    simp [FlashChip.shown, FlashChip.idByte, FlashChip.identifyMode, is28xxx.1]
  · have left : chip.leftMode start.array = chip.identifyMode := by
      cases convention : chip.is28xxx with
      | false => simp [FlashChip.leftMode, FlashChip.Masked, FlashChip.identifyMode, convention]
      | true =>
          have masked : start.array 0 = chip.bManufacturerId :=
            not_not.mp fun other => is28xxx ⟨convention, other⟩
          simp [FlashChip.leftMode, FlashChip.Masked, FlashChip.identifyMode, convention, masked]
    have quiet : chip.Quiet chip.identifyMode := .inr rfl
    rw [if_neg (by simpa using is28xxx), decide_eq_false is28xxx, left]
    refine (identify29xxx_finds held).andThen ?_
    rintro _ tried ⟨held, rfl⟩
    refine (differsFromNormalMode_finds held quiet.readable).andThen ?_
    rintro _ compared ⟨held, -⟩
    exact ⟨held, rfl⟩

/-- From identification mode on a 28xxx chip is found one way or the other. -/
theorem identify_again {normal0 normal1 : Byte} (is28xxx : chip.is28xxx = true)
    (held : InMode start .ident state.flash) :
    (identify chip.bus normal0 normal1).Ensures state cut fun ids after =>
      (∃ mode, chip.Quiet mode ∧ InMode start mode after.flash) ∧
        ids.bManufacturerId = chip.bManufacturerId ∧ ids.bDeviceId = chip.bDeviceId := by
  have identify : chip.identifyMode = .ident := by simp [FlashChip.identifyMode, is28xxx]
  refine (identify28xxx_finds held (.inr identify.symm)).andThen ?_
  rintro _ tried ⟨held, rfl⟩
  refine (differsFromNormalMode_finds held (.inl rfl)).andThen ?_
  rintro differs compared ⟨held, -⟩
  split
  · refine ⟨⟨.array, .inl rfl, held⟩, ?_⟩
    simp [FlashChip.shown, FlashChip.idByte, identify]
  · refine (identify29xxx_finds held).andThen ?_
    rintro _ tried ⟨held, rfl⟩
    have quiet : chip.Quiet chip.identifyMode := .inr rfl
    refine (differsFromNormalMode_finds held quiet.readable).andThen ?_
    rintro _ compared ⟨held, -⟩
    exact ⟨⟨_, quiet, held⟩, rfl, rfl⟩

/-! ## Known types -/

/-- The sizes of the known types. -/
theorem knownFlashType_length {entry : KnownFlashType} {bManufacturerId bDeviceId : Byte}
    (known : entry ∈ knownFlashType aknownflashtypesDefault bManufacturerId bDeviceId) :
    0x40000 ≤ entry.dwLengthInBytes.toNat ∧ entry.dwLengthInBytes.toNat ≤ 0x200000 := by
  have listed := List.mem_of_find?_eq_some (Option.mem_def.mp known)
  have sizes : ∀ entry ∈ aknownflashtypesDefault.takeWhile fun entry => entry.bManufacturerId ≠ 0,
      0x40000 ≤ entry.dwLengthInBytes.toNat ∧ entry.dwLengthInBytes.toNat ≤ 0x200000 := by
    decide
  exact sizes entry listed

/-- No known type has a manufacturer ID that reads as erased. -/
theorem knownFlashType_manufacturer {entry : KnownFlashType} {bManufacturerId bDeviceId : Byte}
    (known : entry ∈ knownFlashType aknownflashtypesDefault bManufacturerId bDeviceId) :
    bManufacturerId ≠ 0xff := by
  have listed := List.mem_of_find?_eq_some (Option.mem_def.mp known)
  have found := List.find?_some (Option.mem_def.mp known)
  have others : ∀ entry ∈ aknownflashtypesDefault.takeWhile fun entry => entry.bManufacturerId ≠ 0,
      entry.bManufacturerId ≠ 0xff := by
    decide
  have same : entry.bManufacturerId = bManufacturerId := (of_decide_eq_true found).1
  rw [← same]
  exact others entry listed

/-- What a cut in identification leaves; none of it needs more than 33 passes. -/
def Unidentified (start : FlashDevice) (fuel : Nat) (state : FlashState FlashDevice) : Prop :=
  fuel < 33 ∧ ∃ mode, InMode start mode state.flash

/-- Leaving the lock bits for the array. -/
theorem leaveLocks_finds {α β : Type} {result : α × β} (fuel : Nat)
    (is28xxx : chip.is28xxx = true) (held : InMode start mode state.flash)
    (quiet : chip.Quiet state.flash.mode) :
    (do writeFlash chip.bus 0x5555 0x50
        writeFlash chip.bus 0x5555 0xff
        pure result : Driver FlashDevice (α × β)).Ensures state (Unidentified start fuel)
      fun same after => InMode start .array after.flash ∧ same.1 = result.1 := by
  rw [Program.ensures_bind, ensures_clear is28xxx quiet, Program.ensures_bind,
    ensures_readArray quiet]
  exact ⟨held.inMode .array, rfl⟩

/-- The locks are read of a chip that answers the 28xxx way. -/
theorem readLocks_finds {dwLengthInBytes : UInt32} (is28xxx : chip.is28xxx = true)
    (size : dwLengthInBytes.toNat ≤ 0x200000) (held : InMode start .array state.flash) :
    (readLocks chip.bus fuel dwLengthInBytes).Ensures state (Unidentified start fuel)
      fun locks after => InMode start .array after.flash ∧
        locks.1 = decide (chip.identByte 3 ≠ 0) := by
  have identify : chip.identifyMode = .ident := by simp [FlashChip.identifyMode, is28xxx]
  have clear : chip.Quiet state.flash.mode := .inl held.mode
  rw [readLocks, Program.ensures_bind, ensures_bareIdentify clear, identify]
  refine (readFlash_ensures (held.inMode .ident) (.inr rfl)).andThen ?_
  rintro master read ⟨held, rfl⟩
  rw [Program.ensures_bind]
  refine Program.loop_ensures
    (fun left locals current => InMode start .ident current.flash ∧
      locals.1.toNat + left * 0x10000 = fuel * 0x10000 ∧ locals.1.toNat < 0x210000)
    ?_ ?_ ⟨held, Nat.zero_add _, Nat.zero_lt_of_lt (Nat.lt_succ_self 0x20ffff)⟩
  · rintro locals cutOff ⟨held, passes, bounded⟩
    exact ⟨by omega, .ident, held⟩
  · rintro left ⟨n, locks⟩ current ⟨held, passes, bounded⟩
    have quiet : chip.Quiet current.flash.mode := by
      rw [held.mode, ← identify]
      exact .inr rfl
    dsimp only at passes bounded ⊢
    split
    next more =>
      rw [Program.ensures_bind, ensures_bareIdentify quiet, identify]
      refine (readFlash_ensures (held.inMode .ident) (.inr rfl)).andThen ?_
      rintro lock read ⟨held, rfl⟩
      have below : n.toNat < 0x200000 := Nat.lt_of_lt_of_le (UInt32.lt_iff_toNat_lt.mp more) size
      have next : (n + 0x10000).toNat = n.toNat + 0x10000 := by
        rw [UInt32.toNat_add]
        change (n.toNat + 0x10000) % 2 ^ 32 = _
        omega
      refine ⟨held, ?_, ?_⟩
      · rw [next]
        omega
      · rw [next]
        omega
    next =>
      exact leaveLocks_finds fuel is28xxx held quiet

/-! ## The object -/

/-- What the object filled in says of the chip. -/
structure Describing (chip : FlashChip) (start : FlashDevice) (asked : ObjectFlash)
    (found : Bool × ObjectFlash) : Prop where
  known : found.1 =
    (knownFlashType aknownflashtypesDefault chip.bManufacturerId chip.bDeviceId).isSome
  capable : found.1 = true →
    (found.2.fIsBelievedCapableOfWriteAndErase = true ↔ chip.Accepted start.array)
  chipLength : found.1 = true → found.2.dwLengthInBytes.toNat = chip.lengthInBytes
  conventions : found.2.fDetectedUsing28xxxConventions = decide (chip.SeenAs28xxx start.array)
  start : found.2.dwStartOffset = asked.dwStartOffset
  used : found.2.dwLengthUsedArea = asked.dwLengthUsedArea
  callback : found.2.pcallbackFlash = asked.pcallbackFlash

/-- Only a chip seen as a 28xxx is asked for its locks. -/
theorem describeKnown_finds {entry : KnownFlashType}
    (seen : pof.fDetectedUsing28xxxConventions = decide (chip.SeenAs28xxx start.array))
    (capable : pof.fIsBelievedCapableOfWriteAndErase = true)
    (size : entry.dwLengthInBytes.toNat ≤ 0x200000)
    (held : InMode start (chip.leftMode start.array) state.flash) :
    (describeKnown chip.bus fuel pof entry).Ensures state (Unidentified start fuel)
      fun described after => InMode start (chip.leftMode start.array) after.flash ∧
        (described.fIsBelievedCapableOfWriteAndErase = true ↔
          (chip.SeenAs28xxx start.array → chip.identByte 3 = 0)) ∧
        described.dwLengthInBytes = entry.dwLengthInBytes ∧
        described.fDetectedUsing28xxxConventions = pof.fDetectedUsing28xxxConventions ∧
        described.dwStartOffset = pof.dwStartOffset ∧
        described.dwLengthUsedArea = pof.dwLengthUsedArea ∧
        described.pcallbackFlash = pof.pcallbackFlash := by
  unfold describeKnown
  dsimp only
  rw [seen]
  by_cases is28xxx : chip.SeenAs28xxx start.array
  · have array : chip.leftMode start.array = .array := if_neg fun masked => is28xxx.2 masked.2
    rw [array] at held ⊢
    rw [if_pos (decide_eq_true is28xxx)]
    refine (readLocks_finds is28xxx.1 size held).andThen ?_
    rintro ⟨masterLock, locks⟩ read ⟨held, locked⟩
    dsimp only at locked
    subst locked
    exact ⟨held, by simp [is28xxx], rfl, rfl, rfl, rfl, rfl⟩
  · rw [if_neg (by simpa using is28xxx)]
    exact ⟨held, by simp [is28xxx, capable], rfl, rfl, rfl, rfl, rfl⟩

theorem describeUnknown_finds {normal0 normal1 : Byte} (held : InMode start mode state.flash)
    (quiet : chip.Quiet mode) :
    (describeUnknown chip.bus pof normal0 normal1).Ensures state cut
      fun described after => InMode start mode after.flash ∧
        described.fDetectedUsing28xxxConventions = pof.fDetectedUsing28xxxConventions ∧
        described.dwStartOffset = pof.dwStartOffset ∧
        described.dwLengthUsedArea = pof.dwLengthUsedArea ∧
        described.pcallbackFlash = pof.pcallbackFlash := by
  refine (differsFromNormalMode_finds held quiet.readable).andThen ?_
  rintro differs compared ⟨held, -⟩
  exact ⟨held, rfl, rfl, rfl, rfl⟩

/-- Identification fills in what the chip is. -/
theorem bootFlashGetDescriptor_finds (held : InMode start .array state.flash) :
    (bootFlashGetDescriptor chip.bus fuel pof aknownflashtypesDefault).Ensures state
      (Unidentified start fuel) fun found after =>
        InMode start (chip.leftMode start.array) after.flash ∧ Describing chip start pof found := by
  refine setErrorInfo_ensures.andThen ?_
  intro _ cleared same
  rw [← same] at held
  refine (readFlash_contents held).andThen ?_
  rintro _ read ⟨held, rfl⟩
  refine (readFlash_contents held).andThen ?_
  rintro _ again ⟨held, rfl⟩
  refine (identify_finds held).andThen ?_
  rintro _ identified ⟨held, rfl⟩
  dsimp only
  cases found : knownFlashType aknownflashtypesDefault chip.bManufacturerId chip.bDeviceId with
  | none =>
      refine (describeUnknown_finds held (chip.quiet_leftMode start.array)).andThen ?_
      rintro described after ⟨held, conventions, start, used, callback⟩
      exact ⟨held, {
        known := by rw [found]; rfl
        capable := nofun
        chipLength := nofun
        conventions, start, used, callback }⟩
  | some entry =>
      have listed := Option.mem_def.mpr found
      refine (describeKnown_finds rfl rfl (knownFlashType_length listed).2 held).andThen ?_
      rintro described after ⟨held, capable, known, conventions, start, used, callback⟩
      exact ⟨held, {
        known := by rw [found]; rfl
        capable := fun _ => by rw [capable, FlashChip.Accepted, found]; simp
        chipLength := fun _ => by rw [known, chip.known_length entry listed]
        conventions, start, used, callback }⟩

/-- A 28xxx chip of no known type is not found from identification mode either. -/
theorem bootFlashGetDescriptor_again (is28xxx : chip.is28xxx = true)
    (unknown : knownFlashType aknownflashtypesDefault chip.bManufacturerId chip.bDeviceId = none)
    (held : InMode start .ident state.flash) :
    (bootFlashGetDescriptor chip.bus fuel pof aknownflashtypesDefault).Ensures state cut
      fun found after => found.1 = false ∧ ∃ mode, InMode start mode after.flash := by
  refine setErrorInfo_ensures.andThen ?_
  intro _ cleared same
  rw [← same] at held
  refine (readFlash_ensures held (.inr rfl)).andThen ?_
  rintro _ read ⟨held, rfl⟩
  refine (readFlash_ensures held (.inr rfl)).andThen ?_
  rintro _ again ⟨held, rfl⟩
  refine (identify_again is28xxx held).andThen ?_
  rintro ⟨bManufacturerId, bDeviceId, detected⟩ identified ⟨⟨mode, quiet, held⟩, rfl, rfl⟩
  dsimp only
  rw [unknown]
  refine (describeUnknown_finds held quiet).andThen ?_
  rintro described after ⟨held, -⟩
  exact ⟨rfl, mode, held⟩

end Cromwell.Flash
