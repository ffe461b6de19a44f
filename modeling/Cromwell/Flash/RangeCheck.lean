import Cromwell.Flash.Reflash
import Cromwell.Flash.RetryBounds

/-!
# The range check

Identification writes nothing but its own commands. Behind it stands one comparison of
the length of the chip with the end of the region, computed in 32 bits. Where that sum
does not wrap, every operation is for an address of the chip; where it wraps to
something small, the region passes the check and erasing begins.
-/

namespace Cromwell.Flash

open Cromwell.Std Cromwell.Std.Program

/-! ## Identification -/

/-- The writes of identification. -/
def identificationWrites : List (Nat × Byte) :=
  [(0x5555, 0xff), (0x5555, 0x90), (0x5555, 0xf0), (0x5555, 0xaa), (0x2aaa, 0x55),
    (0x5555, 0x50)]

/-- A cycle of identification; reads are free. -/
def Identifying : Cycle → Prop
  | .read _ => True
  | .write address value => (address, value) ∈ identificationWrites

section Identification

variable {σ : Type} {bus : FlashBus σ} {fuel : Nat}

/-- The step only identifies. -/
abbrev Identifies {α : Type} (step : Driver (σ × List Cycle) α) : Prop :=
  EmitsOnly FlashState.cycles Identifying step

theorem readFlash_identifies (address : UInt32) : Identifies (readFlash bus.traced address) :=
  EmitsOnly.update (fun _ => rfl) fun _ => trivial

theorem writeFlash_identifies {address : UInt32} {value : Byte}
    (ofIdentification : (address.toNat, value) ∈ identificationWrites) :
    Identifies (writeFlash bus.traced address value) :=
  EmitsOnly.update (fun _ => rfl) fun _ => ofIdentification

theorem unlock_identifies : Identifies (unlock bus.traced) :=
  (writeFlash_identifies (by decide)).bind fun _ => writeFlash_identifies (by decide)

theorem identify28xxx_identifies : Identifies (identify28xxx bus.traced) :=
  (writeFlash_identifies (by decide)).bind fun _ =>
    (writeFlash_identifies (by decide)).bind fun _ =>
      (readFlash_identifies 0).bind fun _ => (writeFlash_identifies (by decide)).bind fun _ =>
        (readFlash_identifies 1).bind fun _ => (writeFlash_identifies (by decide)).bind fun _ =>
          .pure _

theorem identify29xxx_identifies : Identifies (identify29xxx bus.traced) :=
  (writeFlash_identifies (by decide)).bind fun _ => unlock_identifies.bind fun _ =>
    (writeFlash_identifies (by decide)).bind fun _ => unlock_identifies.bind fun _ =>
      (writeFlash_identifies (by decide)).bind fun _ => (readFlash_identifies 0).bind fun _ =>
        (readFlash_identifies 1).bind fun _ => (writeFlash_identifies (by decide)).bind fun _ =>
          .pure _

theorem differsFromNormalMode_identifies (normal0 normal1 bManufacturerId : Byte) :
    Identifies (differsFromNormalMode bus.traced normal0 normal1 bManufacturerId) :=
  .ite (.pure true) ((readFlash_identifies 1).bind fun _ => .pure _)

theorem identify_identifies (normal0 normal1 : Byte) :
    Identifies (identify bus.traced normal0 normal1) :=
  identify28xxx_identifies.bind fun first =>
    (differsFromNormalMode_identifies _ _ _).bind fun _ => .ite (.pure first)
      (identify29xxx_identifies.bind fun second =>
        (differsFromNormalMode_identifies _ _ _).bind fun _ => .pure second)

theorem readLocks_identifies (dwLengthInBytes : UInt32) :
    Identifies (readLocks bus.traced fuel dwLengthInBytes) := by
  refine (writeFlash_identifies (by decide)).bind fun _ => (readFlash_identifies 3).bind fun _ =>
    EmitsOnly.bind (.loop (fun locals => .ite ?_ (.pure _)) _ _) fun _ =>
      (writeFlash_identifies (by decide)).bind fun _ =>
        (writeFlash_identifies (by decide)).bind fun _ => .pure _
  exact (writeFlash_identifies (by decide)).bind fun _ => (readFlash_identifies _).bind fun _ =>
    .pure _

/-- `BootFlashGetDescriptor` writes nothing but identification commands. -/
theorem bootFlashGetDescriptor_identifies (pof : ObjectFlash) (pkft : List KnownFlashType) :
    Identifies (bootFlashGetDescriptor bus.traced fuel pof pkft) := by
  refine EmitsOnly.bind (.unchanged fun _ => rfl) fun _ => (readFlash_identifies 0).bind fun _ =>
    (readFlash_identifies 1).bind fun _ => (identify_identifies _ _).bind fun ids => ?_
  dsimp only
  split
  · refine EmitsOnly.bind (.ite ?_ (.pure _)) fun _ => .pure _
    exact (readLocks_identifies _).bind fun _ => .pure _
  · exact EmitsOnly.bind ((differsFromNormalMode_identifies _ _ _).bind fun _ => .pure _) fun _ =>
      .pure _

/-- Identification leaves the region as it is. -/
theorem bootFlashGetDescriptor_region (pof : ObjectFlash) (pkft : List KnownFlashType)
    (state : FlashState σ) :
    (bootFlashGetDescriptor bus fuel pof pkft).Ensures state (fun _ => True) fun found _ =>
      found.2.dwStartOffset = pof.dwStartOffset ∧
        found.2.dwLengthUsedArea = pof.dwLengthUsedArea := by
  refine (ensures_true _ _).andThen fun _ _ _ => (ensures_true _ _).andThen fun _ _ _ =>
    (ensures_true _ _).andThen fun _ _ _ => (ensures_true _ _).andThen fun ids _ _ => ?_
  dsimp only
  split
  · refine ensures_bind.mpr (ensures_ite.mpr ⟨fun _ => ?_, fun _ => ⟨rfl, rfl⟩⟩)
    exact (ensures_true _ _).andThen fun _ _ _ => ⟨rfl, rfl⟩
  · exact ensures_bind.mpr ((ensures_true _ _).andThen fun _ _ _ => ⟨rfl, rfl⟩)

end Identification

/-! ## Reflashing -/

section Reflashing

variable {σ : Type} {bus : FlashBus σ} {fuel : Nat} {pof : ObjectFlash}

/-- Operations within the region, complete or not. -/
def Within (pof : ObjectFlash) (operations : List Operation) : Prop :=
  ∀ operation ∈ operations,
    pof.dwStartOffset.toNat ≤ operation.address ∧ operation.address < pof.finish

theorem Within.append {first second : List Operation} (front : Within pof first)
    (back : Within pof second) : Within pof (first ++ second) := fun operation member =>
  (List.mem_append.mp member).elim (front operation) (back operation)

/-- One pass stays in the region. -/
theorem reflashPass_emits (bounded : pof.finish ≤ 2 ^ 32) (pbNewData : Memory) (again : Unit) :
    Emits FlashState.cycles (reflashPass bus.traced fuel pof pbNewData again)
      (fun cycles => ∃ operations, Within pof operations ∧
        writes cycles <+: operations.flatMap Operation.cycles)
      fun _ cycles => ∃ operations, Within pof operations ∧
        writes cycles = operations.flatMap Operation.cycles := by
  refine Emits.andThen (Emits.mono (bootFlashEraseMinimalRegion_emits bounded) ?_
    fun _ _ held => held) ?_
  · rintro cycles ⟨operations, kept, front⟩
    exact ⟨operations, kept.inside, front⟩
  rintro erased cycles ⟨operations, kept, same⟩
  cases erased with
  | false =>
      refine Emits.pure ⟨operations, kept.inside, ?_⟩
      rw [List.append_nil]
      exact same
  | true =>
      refine Emits.andThen (Emits.mono (bootFlashProgram_emits bounded pbNewData) ?_
        fun _ _ held => held) ?_
      · rintro later ⟨working, verifying, rfl, ⟨more, kept', front⟩, nothing, -⟩
        refine ⟨operations ++ more, Within.append kept.inside kept'.inside, ?_⟩
        rw [writes_append, writes_append, nothing, List.append_nil, same, List.flatMap_append]
        exact (List.prefix_append_right_inj _).mpr front
      · rintro programmed later ⟨working, verifying, rfl, ⟨more, kept', same'⟩, nothing, -⟩
        have total : writes (cycles ++ (working ++ verifying)) =
            (operations ++ more).flatMap Operation.cycles := by
          rw [writes_append, writes_append, nothing, List.append_nil, same, same',
            List.flatMap_append]
        cases programmed with
        | true =>
            refine Emits.pure ⟨operations ++ more, Within.append kept.inside kept'.inside, ?_⟩
            rw [List.append_nil]
            exact total
        | false =>
            refine Emits.pure ⟨operations ++ more, Within.append kept.inside kept'.inside, ?_⟩
            rw [List.append_nil]
            exact total

/-- However often the loop tries, it stays in the region. -/
theorem reflashLoop_emits (bounded : pof.finish ≤ 2 ^ 32) (pbNewData : Memory) (passes : Nat) :
    Emits FlashState.cycles (loop (reflashPass bus.traced fuel pof pbNewData) passes ())
      (fun cycles => ∃ operations, Within pof operations ∧
        writes cycles <+: operations.flatMap Operation.cycles)
      fun _ cycles => ∃ operations, Within pof operations ∧
        writes cycles <+: operations.flatMap Operation.cycles := by
  refine Emits.loop (fun _ cycles => ∃ operations, Within pof operations ∧
    writes cycles = operations.flatMap Operation.cycles) ?_ ?_ passes
    ⟨[], fun _ member => absurd member List.not_mem_nil, rfl⟩
  · rintro _ cycles ⟨operations, within, same⟩
    exact ⟨operations, within, same ▸ List.prefix_rfl⟩
  · rintro again cycles ⟨operations, within, same⟩
    refine Emits.mono (reflashPass_emits bounded pbNewData again) ?_ ?_
    · rintro later ⟨more, within', front⟩
      refine ⟨operations ++ more, within.append within', ?_⟩
      rw [writes_append, same, List.flatMap_append]
      exact (List.prefix_append_right_inj _).mpr front
    · rintro ended later ⟨more, within', same'⟩
      have total : writes (cycles ++ later) = (operations ++ more).flatMap Operation.cycles := by
        rw [writes_append, same, same', List.flatMap_append]
      cases ended with
      | next _ => exact ⟨operations ++ more, within.append within', total⟩
      | leave _ => exact ⟨operations ++ more, within.append within', total ▸ List.prefix_rfl⟩

end Reflashing

/-! ## The check -/

/-- Identification, and then operations. There are operations only if the region ends within the
chip, and each one is for an address of the chip. -/
def InRange (dwLengthInBytes dwStartOffset dwLength : Nat) (cycles : List Cycle) : Prop :=
  ∃ identification operations,
    writes cycles <+: identification ++ operations.flatMap Operation.cycles ∧
      (∀ write ∈ identification, write ∈ identificationWrites) ∧
      (operations ≠ [] → dwStartOffset + dwLength ≤ dwLengthInBytes) ∧
      ∀ operation ∈ operations, operation.address < dwLengthInBytes

/-- The chip on the bus is identified, with the given length. -/
def Recognised {σ : Type} (bus : FlashBus σ) (fuel : Nat) (dwStartOffset dwLength : UInt32)
    (dwLengthInBytes : UInt32) (state : FlashState σ) : Prop :=
  ∃ pof after, bootFlashGetDescriptor bus.traced fuel (freshObject dwStartOffset dwLength)
    aknownflashtypesDefault state.recording = .leave ((true, pof), after) ∧
      pof.dwLengthInBytes = dwLengthInBytes

section Check

variable {σ : Type} {bus : FlashBus σ} {fuel : Nat}
  {dwStartOffset dwLength dwLengthInBytes : UInt32} {state : FlashState σ}

theorem identifying_writes {cycles : List Cycle}
    (identifying : ∀ cycle ∈ cycles, Identifying cycle) :
    ∀ write ∈ writes cycles, write ∈ identificationWrites := by
  rintro ⟨address, value⟩ member
  obtain ⟨cycle, inside, shown⟩ := List.mem_filterMap.mp member
  cases cycle with
  | read _ => cases shown
  | write _ _ =>
      injection shown with shown
      injection shown with first second
      subst first second
      exact identifying _ inside

theorem inRange_identification {cycles : List Cycle}
    (identifying : ∀ cycle ∈ cycles, Identifying cycle) (length start used : Nat) :
    InRange length start used cycles :=
  ⟨writes cycles, [], by simp, identifying_writes identifying, fun some => absurd rfl some,
    fun _ member => absurd member List.not_mem_nil⟩

/-- Operations for addresses of the chip, behind identification. -/
theorem inRange_operations {cycles later : List Cycle} {operations : List Operation}
    {length start used : Nat} (identifying : ∀ cycle ∈ cycles, Identifying cycle)
    (fits : start + used ≤ length) (inside : ∀ operation ∈ operations, operation.address < length)
    (front : writes later <+: operations.flatMap Operation.cycles) :
    InRange length start used (cycles ++ later) := by
  refine ⟨writes cycles, operations, ?_, identifying_writes identifying, fun _ => fits, inside⟩
  rw [writes_append]
  exact (List.prefix_append_right_inj _).mpr front

/-- Behind identification the loop stays in a region of the chip. -/
theorem reflashLoop_inRange {pof : ObjectFlash} {after : FlashState (σ × List Cycle)}
    {identification : List Cycle} {length start used : Nat}
    (extended : after.cycles = identification)
    (identifying : ∀ cycle ∈ identification, Identifying cycle) (finish : pof.finish = start + used)
    (fits : start + used ≤ length) (bounded : start + used ≤ 2 ^ 32) (pbNewData : Memory)
    (passes : Nat) :
    (loop (reflashPass bus.traced fuel pof pbNewData) passes ()).Ensures after
      (fun cutOff => InRange length start used cutOff.cycles)
      fun _ reached => InRange length start used reached.cycles := by
  have inside : ∀ operations, Within pof operations → ∀ operation ∈ operations,
      operation.address < length := fun operations within operation member => by
    have upper := (within operation member).2
    omega
  refine (reflashLoop_emits (by omega) pbNewData passes after).mono ?_ ?_
  · rintro cutOff ⟨later, more, operations, within, front⟩
    rw [more, extended]
    exact inRange_operations identifying fits (inside operations within) front
  · rintro _ reached ⟨later, more, operations, within, front⟩
    rw [more, extended]
    exact inRange_operations identifying fits (inside operations within) front

/-- A region that ends within the address space is checked as it should be. -/
theorem bootReflashAndReset_inRange
    (recognised : Recognised bus fuel dwStartOffset dwLength dwLengthInBytes state)
    (checked : dwStartOffset.toNat + dwLength.toNat < 2 ^ 32 ∨
      dwLengthInBytes < dwStartOffset + dwLength) (pbNewData : Memory) :
    (bootReflashAndReset bus.traced fuel pbNewData dwStartOffset dwLength).Ensures state.recording
      (fun cutOff => InRange dwLengthInBytes.toNat dwStartOffset.toNat dwLength.toNat
        cutOff.cycles)
      fun _ after => InRange dwLengthInBytes.toNat dwStartOffset.toNat dwLength.toNat
        after.cycles := by
  obtain ⟨pof, after, run, length⟩ := recognised
  obtain ⟨identification, extended, identifying⟩ :=
    (bootFlashGetDescriptor_identifies _ _ state.recording).of_returned run
  obtain ⟨start, used⟩ := (bootFlashGetDescriptor_region _ _ state.recording).of_returned run
  have only : InRange dwLengthInBytes.toNat dwStartOffset.toNat dwLength.toNat after.cycles := by
    rw [extended]
    exact inRange_identification identifying _ _ _
  have found : (bootFlashGetDescriptor bus.traced fuel (freshObject dwStartOffset dwLength)
      aknownflashtypesDefault).Ensures state.recording
        (fun cutOff => InRange dwLengthInBytes.toNat dwStartOffset.toNat dwLength.toNat
          cutOff.cycles)
        fun found reached => found = (true, pof) ∧ reached = after := ensures_of_run run ⟨rfl, rfl⟩
  refine found.andThen ?_
  rintro _ after ⟨rfl, rfl⟩
  dsimp only
  rw [if_neg (not_not.mpr rfl)]
  refine ensures_ite.mpr ⟨fun _ => only, fun _ => ensures_ite.mpr ⟨fun _ => only, fun fits => ?_⟩⟩
  rw [length] at fits
  have small := checked.resolve_right fits
  have sum : (dwStartOffset + dwLength).toNat = dwStartOffset.toNat + dwLength.toNat := by
    rw [UInt32.toNat_add, Nat.mod_eq_of_lt small]
  rw [UInt32.not_lt, UInt32.le_iff_toNat_le, sum] at fits
  have finish : pof.finish = dwStartOffset.toNat + dwLength.toNat := by
    rw [ObjectFlash.finish, start, used]
    rfl
  refine ensures_bind.mpr ?_
  exact reflashLoop_inRange extended identifying finish fits (Nat.le_of_lt small) pbNewData fuel

end Check

/-! ## A region that wraps -/

/-- A chip that takes no command and shows its IDs in its first two bytes. -/
def romBus (entry : KnownFlashType) : FlashBus Unit where
  read _ address :=
    (if address = 0 then entry.bManufacturerId else if address = 1 then entry.bDeviceId else 0, ())
  write _ _ _ := ()

section Rom

variable {entry : KnownFlashType} {state : FlashState (Unit × List Cycle)} {fuel : Nat}
  {cut : FlashState (Unit × List Cycle) → Prop}

theorem differsFromNormalMode_rom :
    (differsFromNormalMode (romBus entry).traced entry.bManufacturerId entry.bDeviceId
      entry.bManufacturerId).Ensures state cut fun differs _ => differs = false := by
  unfold differsFromNormalMode
  rw [if_neg (not_not.mpr rfl)]
  refine ensures_bind.mpr (ensures_update.mpr ?_)
  exact decide_eq_false (not_not.mpr rfl)

theorem identify_rom :
    (identify (romBus entry).traced entry.bManufacturerId entry.bDeviceId).Ensures state cut
      fun ids _ => ids = ⟨entry.bManufacturerId, entry.bDeviceId, false⟩ := by
  have first : (identify28xxx (romBus entry).traced).Ensures state cut fun ids _ =>
      ids.bManufacturerId = entry.bManufacturerId := rfl
  refine first.andThen ?_
  intro ids after same
  rw [same]
  refine differsFromNormalMode_rom.andThen ?_
  rintro _ after rfl
  have second : (identify29xxx (romBus entry).traced).Ensures after cut fun ids _ =>
      ids = ⟨entry.bManufacturerId, entry.bDeviceId, false⟩ := rfl
  refine second.andThen ?_
  rintro _ after rfl
  exact differsFromNormalMode_rom.andThen fun _ _ _ => rfl

/-- The chip is recognised by the 29xxx conventions. -/
theorem bootFlashGetDescriptor_rom
    (known : knownFlashType aknownflashtypesDefault entry.bManufacturerId entry.bDeviceId =
      some entry) (pof : ObjectFlash) :
    (bootFlashGetDescriptor (romBus entry).traced fuel pof aknownflashtypesDefault).Ensures state
      cut fun found _ => found.1 = true ∧ found.2.dwLengthInBytes = entry.dwLengthInBytes ∧
        found.2.fDetectedUsing28xxxConventions = false ∧
        found.2.fIsBelievedCapableOfWriteAndErase = true ∧
        found.2.dwStartOffset = pof.dwStartOffset ∧
        found.2.dwLengthUsedArea = pof.dwLengthUsedArea ∧
        found.2.pcallbackFlash = pof.pcallbackFlash := by
  have look : ∀ address state, (readFlash (romBus entry).traced address).Ensures state cut
      fun b _ => b = (if address.toNat = 0 then entry.bManufacturerId
        else if address.toNat = 1 then entry.bDeviceId else 0) := fun _ _ => rfl
  refine ensures_bind.mpr (ensures_update.mpr ?_)
  refine (look 0 _).andThen ?_
  rintro _ _ rfl
  refine (look 1 _).andThen ?_
  rintro _ _ rfl
  refine identify_rom.andThen ?_
  rintro _ after rfl
  dsimp only
  rw [known]
  exact ⟨rfl, rfl, rfl, rfl, rfl, rfl, rfl⟩

/-- An erase command is on record. -/
def EraseBegun (state : FlashState (Unit × List Cycle)) : Prop :=
  Cycle.write 0x5555 0x80 ∈ state.cycles

theorem eraseCommand_begun (dw : UInt32) (code : Byte) :
    (eraseCommand (romBus entry).traced dw code).Ensures state cut fun _ after =>
      EraseBegun after := by
  simp [eraseCommand, unlock, writeFlash, EraseBegun, FlashState.cycles, FlashBus.traced]

theorem erase29xxx_begun (pof : ObjectFlash) (dw : UInt32) (nCountEraseRetryIn4KBlock : Int) :
    (erase29xxx (romBus entry).traced fuel pof dw nCountEraseRetryIn4KBlock).Ensures state
      EraseBegun fun _ => EraseBegun := by
  have poll : Stable EraseBegun (pollToggle (romBus entry).traced fuel dw) :=
    Emits.stable (pollToggle_quiet fuel dw) _
  have block : (eraseBlock (romBus entry).traced fuel dw).Ensures state EraseBegun
      fun _ => EraseBegun := by
    refine (eraseCommand_begun dw 0x50).andThen fun _ after begun => ?_
    exact poll.bind (fun dwCountTries => .ite
      (Emits.stable (further_issues dw 0x30 (pollToggle_quiet fuel dw)) _)
      (.pure dwCountTries)) after begun
  refine block.andThen fun dwCountTries after begun => ?_
  exact Stable.ite (Emits.stable (further_issues 0x5555 0x10
    ((pollToggle_quiet fuel dw).bind fun _ => .pure ())) _) (.pure ()) after begun

/-- The first pass of the erase loop begins to erase. -/
theorem eraseLoop_begun {pof : ObjectFlash} (some : pof.dwLengthUsedArea ≠ 0)
    (written : ((romBus entry).read () pof.dwStartOffset.toNat).1 ≠ 0xff)
    (conventions : pof.fDetectedUsing28xxxConventions = false) :
    (eraseLoop (romBus entry).traced 1 pof).Ensures state EraseBegun fun _ _ => False := by
  let locals : EraseLocals := ⟨pof.dwStartOffset, pof.dwLengthUsedArea, 0xffffffff, 4⟩
  have tries : locals.countRetry.nCountEraseRetryIn4KBlock ≠ 0 := by
    unfold EraseLocals.countRetry
    split
    · show (4 : Int) - 1 ≠ 0
      decide
    · show (4 : Int) ≠ 0
      decide
  have round : ∀ state, (eraseRound (romBus entry).traced 1 pof locals).Ensures state EraseBegun
      fun ended after => (∃ next, ended = .next next) ∧ EraseBegun after := by
    intro state
    unfold eraseRound
    dsimp only
    rw [if_neg tries, conventions]
    exact (erase29xxx_begun pof _ _).andThen fun _ after begun => ⟨⟨_, rfl⟩, begun⟩
  have pass : (erasePass (romBus entry).traced 1 pof locals).Ensures state EraseBegun
      fun ended after => (∃ next, ended = .next next) ∧ EraseBegun after := by
    unfold erasePass
    rw [if_neg some]
    have look : (readFlash (romBus entry).traced locals.dw).Ensures state EraseBegun
        fun b _ => b = ((romBus entry).read () pof.dwStartOffset.toNat).1 := rfl
    refine look.andThen ?_
    rintro b after rfl
    rw [if_pos written]
    exact round after
  refine pass.andThen ?_
  rintro _ after ⟨⟨next, rfl⟩, begun⟩
  exact begun

/-- Past the check the first erase command is issued. -/
theorem bootReflashAndReset_begun
    (known : knownFlashType aknownflashtypesDefault entry.bManufacturerId entry.bDeviceId =
      some entry) {dwStartOffset dwLength : UInt32} (some : dwLength ≠ 0)
    (written : ((romBus entry).read () dwStartOffset.toNat).1 ≠ 0xff)
    (passes : ¬entry.dwLengthInBytes < dwStartOffset + dwLength) (pbNewData : Memory) :
    (bootReflashAndReset (romBus entry).traced 1 pbNewData dwStartOffset dwLength).Ensures state
      EraseBegun fun _ => EraseBegun := by
  refine (bootFlashGetDescriptor_rom known _).andThen ?_
  rintro ⟨seen, pof⟩ after ⟨rfl, length, conventions, capable, start, used, callback⟩
  dsimp only at length conventions capable start used callback ⊢
  rw [if_neg (not_not.mpr rfl), if_neg (not_not.mpr capable), length, if_neg passes]
  have place : pof.dwStartOffset = dwStartOffset := start
  have area : pof.dwLengthUsedArea = dwLength := used
  have shown : pof.pcallbackFlash = .some bootFlashUserInterface := callback
  rw [← place] at written
  rw [← area] at some
  have erase : (bootFlashEraseMinimalRegion (romBus entry).traced 1 pof).Ensures after EraseBegun
      fun _ _ => False := by
    have begun : (deliver pof .eraseStart 0 0).Ensures
        { after with szAdditionalErrorInfo := "" } EraseBegun
          fun accepted _ => accepted = true := by
      unfold deliver
      rw [shown]
      rfl
    refine ensures_bind.mpr (ensures_update.mpr (begun.andThen ?_))
    rintro _ told rfl
    exact (eraseLoop_begun some written conventions).andThen
      fun _ _ impossible => impossible.elim
  have pass : (reflashPass (romBus entry).traced 1 pof pbNewData ()).Ensures after EraseBegun
      fun _ _ => False := erase.andThen fun _ _ impossible => impossible.elim
  have loop : (loop (reflashPass (romBus entry).traced 1 pof pbNewData) 1 ()).Ensures after
      EraseBegun fun _ _ => False := pass.andThen fun _ _ impossible => impossible.elim
  exact loop.andThen fun _ _ impossible => impossible.elim

/-- What begins to erase without room for it is out of range. -/
theorem EraseBegun.not_inRange {length start used : Nat} (begun : EraseBegun state)
    (beyond : length < start + used) : ¬InRange length start used state.cycles := by
  rintro ⟨identification, operations, front, identifying, fits, -⟩
  have none : operations = [] := by
    by_contra some
    exact absurd (fits some) (Nat.not_le_of_lt beyond)
  rw [none, List.flatMap_nil, List.append_nil] at front
  have issued : (0x5555, 0x80) ∈ writes state.cycles := List.mem_filterMap.mpr ⟨_, begun, rfl⟩
  exact absurd (identifying _ (front.subset issued)) (by decide)

end Rom

/-- No device shows the value of an erased byte. -/
theorem romBus_written {entry : KnownFlashType}
    (known : knownFlashType aknownflashtypesDefault entry.bManufacturerId entry.bDeviceId =
      some entry) {address : Nat} (positive : address ≠ 0) :
    ((romBus entry).read () address).1 ≠ 0xff := by
  have ids : ∀ other ∈ aknownflashtypesDefault, other.bDeviceId ≠ 0xff := by decide
  have member : entry ∈ aknownflashtypesDefault :=
    (List.takeWhile_sublist _).subset (List.mem_of_find?_eq_some known)
  show (if address = 0 then entry.bManufacturerId
    else if address = 1 then entry.bDeviceId else 0) ≠ 0xff
  rw [if_neg positive]
  split
  · exact ids entry member
  · decide

theorem recognised_rom {entry : KnownFlashType}
    (known : knownFlashType aknownflashtypesDefault entry.bManufacturerId entry.bDeviceId =
      some entry) (dwStartOffset dwLength : UInt32) (state : FlashState Unit) :
    Recognised (romBus entry) 1 dwStartOffset dwLength entry.dwLengthInBytes state := by
  obtain ⟨⟨seen, pof⟩, after, run, rfl, length, -⟩ :=
    (bootFlashGetDescriptor_rom known (freshObject dwStartOffset dwLength)).returns
  exact ⟨pof, after, run, length⟩

/-- A region that ends behind the address space is out of range, and passes the check when its
wrapped end lies in the chip. -/
theorem not_inRange_of_wraps {entry : KnownFlashType}
    (known : knownFlashType aknownflashtypesDefault entry.bManufacturerId entry.bDeviceId =
      some entry) (dwStartOffset dwLength : UInt32)
    (wraps : 2 ^ 32 ≤ dwStartOffset.toNat + dwLength.toNat)
    (passes : ¬entry.dwLengthInBytes < dwStartOffset + dwLength) (pbNewData : Memory)
    (state : FlashState Unit) :
    Recognised (romBus entry) 1 dwStartOffset dwLength entry.dwLengthInBytes state ∧
      ¬(bootReflashAndReset (romBus entry).traced 1 pbNewData dwStartOffset dwLength).Ensures
        state.recording
        (fun cutOff => InRange entry.dwLengthInBytes.toNat dwStartOffset.toNat dwLength.toNat
          cutOff.cycles)
        fun _ after => InRange entry.dwLengthInBytes.toNat dwStartOffset.toNat dwLength.toNat
          after.cycles := by
  have lengthBound := dwLength.toNat_lt
  have startBound := dwStartOffset.toNat_lt
  have chipBound := entry.dwLengthInBytes.toNat_lt
  have some : dwLength ≠ 0 := by
    rintro rfl
    have zero : (0 : UInt32).toNat = 0 := rfl
    omega
  have positive : dwStartOffset.toNat ≠ 0 := by omega
  refine ⟨recognised_rom known dwStartOffset dwLength state, ?_⟩
  intro ranged
  have begun : (bootReflashAndReset (romBus entry).traced 1 pbNewData dwStartOffset
      dwLength).Ensures state.recording EraseBegun fun _ => EraseBegun :=
    bootReflashAndReset_begun known some (romBus_written known positive) passes pbNewData
  exact ((begun.and ranged).mono (fun cutOff held => held.1.not_inRange (by omega) held.2)
    fun _ after held => held.1.not_inRange (by omega) held.2).const

/-- What the check promises of the chips of a length. -/
def RangeChecked (dwLengthInBytes dwStartOffset dwLength : UInt32) : Prop :=
  ∀ (σ : Type) (bus : FlashBus σ) (state : FlashState σ) (pbNewData : Memory) (fuel : Nat),
    Recognised bus fuel dwStartOffset dwLength dwLengthInBytes state →
      (bootReflashAndReset bus.traced fuel pbNewData dwStartOffset dwLength).Ensures
        state.recording
        (fun cutOff => InRange dwLengthInBytes.toNat dwStartOffset.toNat dwLength.toNat
          cutOff.cycles)
        fun _ after => InRange dwLengthInBytes.toNat dwStartOffset.toNat dwLength.toNat
          after.cycles

theorem not_rangeChecked {entry : KnownFlashType}
    (known : knownFlashType aknownflashtypesDefault entry.bManufacturerId entry.bDeviceId =
      some entry) (dwStartOffset dwLength : UInt32)
    (wraps : 2 ^ 32 ≤ dwStartOffset.toNat + dwLength.toNat)
    (passes : ¬entry.dwLengthInBytes < dwStartOffset + dwLength) :
    ¬RangeChecked entry.dwLengthInBytes dwStartOffset dwLength := by
  intro checked
  obtain ⟨recognised, outside⟩ := not_inRange_of_wraps known dwStartOffset dwLength wraps passes
    (fun _ => 0) ⟨(), [], ""⟩
  exact outside (checked Unit (romBus entry) _ _ 1 recognised)

/-- The check does what it is for, unless the end of the region wraps into the chip. -/
theorem bootReflashAndReset_checks_iff {entry : KnownFlashType}
    (known : knownFlashType aknownflashtypesDefault entry.bManufacturerId entry.bDeviceId =
      some entry) (dwStartOffset dwLength : UInt32) :
    RangeChecked entry.dwLengthInBytes dwStartOffset dwLength ↔
      dwStartOffset.toNat + dwLength.toNat < 2 ^ 32 ∨
        entry.dwLengthInBytes < dwStartOffset + dwLength := by
  constructor
  · intro checked
    by_contra wrong
    obtain ⟨wraps, passes⟩ := not_or.mp wrong
    exact not_rangeChecked known dwStartOffset dwLength (Nat.le_of_not_lt wraps) passes checked
  · intro checked σ bus state pbNewData fuel recognised
    exact bootReflashAndReset_inRange recognised checked pbNewData

/-- The entry of a chip of 256 Kbyte. -/
def winbond : KnownFlashType := ⟨0xda, 0x8c, "Winbond W49F020", 0x40000⟩

theorem winbond_known : knownFlashType aknownflashtypesDefault winbond.bManufacturerId
    winbond.bDeviceId = some winbond := by decide

/-- A region of two pages. -/
theorem bootReflashAndReset_checks_pages : RangeChecked 0x40000 0x2000 0x2000 ↔
    (0x2000 : UInt32).toNat + (0x2000 : UInt32).toNat < 2 ^ 32 ∨
      (0x40000 : UInt32) < 0x2000 + 0x2000 :=
  bootReflashAndReset_checks_iff winbond_known 0x2000 0x2000

/-- Two bytes at the top of the address space end at the second byte of the chip. -/
theorem not_bootReflashAndReset_checks : ¬∀ entry : KnownFlashType,
    knownFlashType aknownflashtypesDefault entry.bManufacturerId entry.bDeviceId = some entry →
      ∀ dwStartOffset dwLength : UInt32,
        RangeChecked entry.dwLengthInBytes dwStartOffset dwLength := by
  intro checks
  exact not_rangeChecked winbond_known 0xffffffff 2 (by decide) (by decide)
    (checks winbond winbond_known 0xffffffff 2)

end Cromwell.Flash
