import Cromwell.Ide.Addressing
import Cromwell.Ide.SectorRead
import Cromwell.Std.Bounds

/-!
# Sector reads that end

Before its data phase a sector read gives up when it cannot go on, and ends there if
only the drive does not stay busy for ever. In the data phase every attempt ends,
whatever the drive does, and every attempt that fails is followed by another one:
such a read returns zero or not at all.
-/

namespace Cromwell.Ide

open Cromwell.Std Cromwell.Std.Program

variable {σ : Type} {bus : PortBus σ} {uIoBase : UInt16}

/-! ## Drives that do not stay busy -/

/-- Polled again and again, the drive comes to an answer that is not busy. -/
inductive Relents (bus : PortBus σ) (base : UInt16) : σ → Prop where
  | now {ports : σ} (free : NotBusy (bus.inByte ports (ideRegAltstatus base)).1) :
      Relents bus base ports
  | later {ports : σ} (rest : Relents bus base (bus.inByte ports (ideRegAltstatus base)).2) :
      Relents bus base ports

/-- A drive that does so whenever it is polled. -/
structure Relenting (bus : PortBus σ) (base : UInt16) (Live : σ → Prop) : Prop where
  relents : ∀ ports, Live ports → Relents bus base ports
  inByte : ∀ ports wAds, Live ports → Live (bus.inByte ports wAds).2
  inWord : ∀ ports wAds, Live ports → Live (bus.inWord ports wAds).2
  outByte : ∀ ports wAds bValue, Live ports → Live (bus.outByte ports wAds bValue)
  outWord : ∀ ports wAds wValue, Live ports → Live (bus.outWord ports wAds wValue)

/-- The program ends with such a drive, however large its bounds have to be. -/
abbrev Ending {α : Type} (Live : σ → Prop) (family : Nat → IdeProgram σ α) : Prop :=
  Total (fun state => Live state.ports) family

/-- Nothing is asked of a drive that is nowhere live. -/
theorem relenting_false : Relenting bus uIoBase fun _ => False :=
  ⟨nofun, nofun, nofun, nofun, nofun⟩

section Polls

variable {state : IdeState σ} {fuel : Nat}

/-- The state after a poll. -/
def IdeState.polled (bus : PortBus σ) (base : UInt16) (state : IdeState σ) : IdeState σ :=
  { ports := (bus.inByte state.ports (ideRegAltstatus base)).2
    trace := state.trace ++
      [.inByte (ideRegAltstatus base) (bus.inByte state.ports (ideRegAltstatus base)).1] }

/-- A wait ends at the first status that is not busy. -/
theorem waitNotBusy_free (free : NotBusy (bus.inByte state.ports (ideRegAltstatus uIoBase)).1) :
    bootIdeWaitNotBusy bus (fuel + 1) uIoBase state =
      .leave ((bus.inByte state.ports (ideRegAltstatus uIoBase)).1 &&& 1,
        state.polled bus uIoBase) :=
  loop_succ_leave.mpr (.inr (bind_leave.mpr
    ⟨_, _, rfl, congrFun (if_neg (not_not.mpr free)) (state.polled bus uIoBase)⟩))

/-- At a busy one it goes on with the drive as polled. -/
theorem waitNotBusy_busy (busy : ¬NotBusy (bus.inByte state.ports (ideRegAltstatus uIoBase)).1) :
    bootIdeWaitNotBusy bus (fuel + 1) uIoBase state =
      bootIdeWaitNotBusy bus fuel uIoBase (state.polled bus uIoBase) :=
  loop_succ_next (bind_leave.mpr
    ⟨_, _, rfl, congrFun (if_pos busy) (state.polled bus uIoBase)⟩)

end Polls

section Ending

variable {Live : σ → Prop} (relenting : Relenting bus uIoBase Live)

include relenting

/-- Reading a byte ends. -/
theorem ioInputByte_ending (wAds : UInt16) : Ending Live fun _ => ioInputByte bus wAds :=
  .update fun state held => relenting.inByte state.ports wAds held

/-- Reading a word ends. -/
theorem ioInputWord_ending (wAds : UInt16) : Ending Live fun _ => ioInputWord bus wAds :=
  .update fun state held => relenting.inWord state.ports wAds held

/-- Writing a byte ends. -/
theorem ioOutputByte_ending (wAds : UInt16) (bValue : Byte) :
    Ending Live fun _ => ioOutputByte bus wAds bValue :=
  .update fun state held => relenting.outByte state.ports wAds bValue held

/-- Writing a word ends. -/
theorem ioOutputWord_ending (wAds wValue : UInt16) :
    Ending Live fun _ => ioOutputWord bus wAds wValue :=
  .update fun state held => relenting.outWord state.ports wAds wValue held

/-- Waiting ends with a drive that relents: by induction on how long it stays busy. -/
theorem waitNotBusy_ending : Ending Live fun fuel => bootIdeWaitNotBusy bus fuel uIoBase := by
  refine ⟨.loop (fun _ => .const _) (), ?_⟩
  rintro ⟨ports, trace⟩ live
  have relents := relenting.relents ports live
  induction relents generalizing trace with
  | @now ports free =>
      exact ⟨_, _, ⟨1, waitNotBusy_free free⟩, relenting.inByte ports _ live⟩
  | @later ports _ ih =>
      have kept := relenting.inByte ports (ideRegAltstatus uIoBase) live
      by_cases free : NotBusy (bus.inByte ports (ideRegAltstatus uIoBase)).1
      · exact ⟨_, _, ⟨1, waitNotBusy_free free⟩, kept⟩
      · obtain ⟨result, after, ⟨fuel, ended⟩, live⟩ := ih _ kept
        exact ⟨result, after, ⟨fuel + 1, (waitNotBusy_busy free).trans ended⟩, live⟩

/-- The polls for data are counted. -/
theorem pollDataReady_ending (i : Nat) : Ending Live fun _ => pollDataReady bus uIoBase i := by
  induction i with
  | zero => exact (ioInputByte_ending relenting _).bind fun _ => .ite (.pure _) (.pure _)
  | succ i ih =>
      refine (ioInputByte_ending relenting _).bind fun _ => .ite ?_ ih
      exact (ioInputByte_ending relenting _).bind fun _ => .ite (.pure _) (.pure _)

/-- So waiting for data ends with every drive. -/
theorem waitDataReady_ending : Ending Live fun _ => bootIdeWaitDataReady bus uIoBase :=
  pollDataReady_ending relenting dataReadyPolls

/-- Setting the registers ends. -/
theorem writeTaskFile_ending (command : IdeCommand) (params : IdeCommandParams) :
    Ending Live fun _ => writeTaskFile bus uIoBase command params := by
  have written := fun wAds bValue => ioOutputByte_ending relenting wAds bValue
  refine (written _ _).bind fun _ => (written _ _).bind fun _ => (written _ _).bind fun _ => ?_
  refine (written _ _).bind fun _ => (written _ _).bind fun _ => (written _ _).bind fun _ => ?_
  refine (written _ _).bind fun _ => (written _ _).bind fun _ => (written _ _).bind fun _ => ?_
  exact written _ _

/-- Issuing a command ends with a drive that relents. -/
theorem issueAtaCommand_ending (command : IdeCommand) (params : IdeCommandParams) :
    Ending Live fun fuel => bootIdeIssueAtaCommand bus fuel uIoBase command params := by
  refine (ioInputByte_ending relenting _).bind fun _ => ?_
  refine (waitNotBusy_ending relenting).bind fun _ => ?_
  refine (writeTaskFile_ending relenting command params).bind fun _ => ?_
  exact (waitNotBusy_ending relenting).bind fun _ => .ite (.pure _) (.pure _)

/-- Reading words ends. -/
theorem readWords_ending (size : Nat) (memory : Memory) (ptr : Nat) :
    Ending Live fun _ => readWords bus uIoBase size memory ptr := by
  induction size, memory, ptr using readWords.induct with
  | case1 memory ptr => exact .pure _
  | case2 memory ptr => exact .pure _
  | case3 size memory ptr ih => exact (ioInputWord_ending relenting _).bind ih

/-- An attempt at a block ends. -/
theorem readData_ending (memory : Memory) (buf size : Nat) :
    Ending Live fun _ => bootIdeReadData bus uIoBase memory buf size := by
  refine (waitDataReady_ending relenting).bind fun _ => .ite (.pure _) ?_
  refine (readWords_ending relenting size memory buf).bind fun _ => ?_
  refine (ioInputByte_ending relenting _).bind fun _ => ?_
  exact (ioInputByte_ending relenting _).bind fun _ => .ite (.pure _) (.pure _)

/-- Writing words ends. -/
theorem writeWords_ending (words : List UInt16) :
    Ending Live fun _ => writeWords bus uIoBase words := by
  induction words with
  | nil => exact .pure _
  | cons word words ih => exact (ioOutputWord_ending relenting _ _).bind fun _ => ih

/-- Sending a packet ends with a drive that relents. -/
theorem writeAtapiData_ending (memory : Memory) (buf size : Nat) :
    Ending Live fun fuel => bootIdeWriteAtapiData bus fuel uIoBase memory buf size := by
  have input := fun wAds => ioInputByte_ending relenting wAds
  refine (waitDataReady_ending relenting).bind fun _ => (input _).bind fun _ => ?_
  refine (input _).bind fun _ => (input _).bind fun _ => .ite (.pure _) ?_
  refine (writeWords_ending relenting _).bind fun _ => (input _).bind fun _ => .ite (.pure _) ?_
  refine (waitNotBusy_ending relenting).bind fun _ => .ite (.pure _) ?_
  exact (input _).bind fun _ => .ite (.pure _) (.pure _)

/-- Reading the byte count ends. -/
theorem readByteCount_ending : Ending Live fun _ => readByteCount bus uIoBase :=
  (ioInputByte_ending relenting _).bind fun _ =>
    (ioInputByte_ending relenting _).bind fun _ => .pure _

end Ending

section Starting

variable {Live : σ → Prop} {tsaHarddiskInfo : Int → DriveInfo} {nDriveIndex : Int}
  (relenting : Relenting bus (tsaHarddiskInfo nDriveIndex).mFwPortBase Live)

include relenting

/-- A packet command and its packet end. -/
theorem issueAtapiPacketCommandAndPacket_ending (packet : Memory) :
    Ending Live fun fuel => bootIdeIssueAtapiPacketCommandAndPacket bus fuel tsaHarddiskInfo
      nDriveIndex packet := by
  have input := fun wAds => ioInputByte_ending relenting wAds
  refine (ioOutputByte_ending relenting _ _).bind fun _ => ?_
  refine (waitNotBusy_ending relenting).bind fun _ => ?_
  refine (issueAtaCommand_ending relenting _ _).bind fun _ => .ite (.pure _) ?_
  refine (waitNotBusy_ending relenting).bind fun _ => .ite ?_ ?_
  · exact (input _).bind fun _ => .pure _
  refine (writeAtapiData_ending relenting _ _ _).bind fun _ => .ite (.pure _) (.ite ?_ (.pure _))
  refine (waitDataReady_ending relenting).bind fun _ => .ite ?_ (.pure _)
  exact (input _).bind fun _ => (input _).bind fun _ => .pure _

/-- Asking for the sense data ends. -/
theorem additionalSenseCode_ending (memory : Memory) (pba nLengthMaxReturn : Nat) :
    Ending Live fun fuel => bootIdeAtapiAdditionalSenseCode bus fuel tsaHarddiskInfo nDriveIndex
      memory pba nLengthMaxReturn := by
  refine .ite (.pure _) ?_
  refine (issueAtapiPacketCommandAndPacket_ending relenting _).bind fun _ => .ite (.pure _) ?_
  refine (readByteCount_ending relenting).bind fun _ => ?_
  exact (readData_ending relenting _ _ _).bind fun _ => .pure _

/-- Clearing the attention of the drive ends. -/
theorem clearAttention_ending (ba : Memory) :
    Ending Live fun fuel => clearAttention bus fuel tsaHarddiskInfo nDriveIndex ba := by
  have input := fun wAds => ioInputByte_ending relenting wAds
  refine (input _).bind fun _ => (input _).bind fun _ => .ite ?_ (.pure _)
  refine (input _).bind fun _ => .ite ?_ (.pure _)
  exact (additionalSenseCode_ending relenting _ _ _).bind fun _ => .pure _

/-- So does the first part of a read from a CD. -/
theorem startAtapiSector_ending (ba : Memory) (block : UInt32) (nBytes : Int32) :
    Ending Live fun fuel => startAtapiSector bus fuel tsaHarddiskInfo nDriveIndex ba block
      nBytes := by
  refine (clearAttention_ending relenting ba).bind fun _ => ?_
  refine (waitNotBusy_ending relenting).bind fun _ => .ite (.pure _) ?_
  refine (issueAtapiPacketCommandAndPacket_ending relenting _).bind fun _ => .ite (.pure _) ?_
  exact (readByteCount_ending relenting).bind fun _ => .pure _

/-- So does that of a read from a hard disk. -/
theorem startAtaSector_ending (block : UInt32) :
    Ending Live fun fuel => startAtaSector bus fuel (tsaHarddiskInfo nDriveIndex) nDriveIndex
      block := by
  refine (ioOutputByte_ending relenting _ _).bind fun _ => ?_
  refine (issueAtaCommand_ending relenting _ _).bind fun _ => .ite ?_ (.pure _)
  exact (ioInputByte_ending relenting _).bind fun _ => .pure _

/-- Up to its data phase a read always comes to an end. -/
theorem startSector_ending (stack : Memory) (block : UInt32) (nBytes : Int32) :
    Ending Live fun fuel => startSector bus fuel tsaHarddiskInfo stack nDriveIndex block nBytes :=
  .ite (.pure _) ((ioOutputByte_ending relenting _ _).bind fun _ => .ite (.pure _)
    (.ite (startAtapiSector_ending relenting stack block nBytes)
      (startAtaSector_ending relenting block)))

end Starting

/-! ## The data phase -/

/-- From the given memory and state, one of the attempts to read the block succeeds. -/
inductive Delivers (bus : PortBus σ) (base : UInt16) (buf size : Nat) :
    Memory → IdeState σ → Memory → IdeState σ → Prop where
  | now {memory stored : Memory} {state after : IdeState σ}
      (attempt : bootIdeReadData bus base memory buf size state = .leave ((0, stored), after)) :
      Delivers bus base buf size memory state stored after
  | again {memory current stored : Memory} {state middle after : IdeState σ} (status : Nat)
      (attempt : bootIdeReadData bus base memory buf size state =
        .leave ((status, current), middle))
      (failed : status ≠ 0) (rest : Delivers bus base buf size current middle stored after) :
      Delivers bus base buf size memory state stored after

section DataPhase

variable {buf size : Nat} {memory stored : Memory} {state after : IdeState σ}

/-- A bound that is large enough for the attempts stays so. -/
theorem readDataRetry_steady :
    Steady fun fuel => readDataRetry bus fuel uIoBase memory buf size := by
  refine Steady.loop ?_ memory
  exact fun _ => .const _

/-- What the loop makes of one attempt. -/
theorem attempt_ends {status : Nat} {current : Memory} {middle : IdeState σ}
    {ended : Pass Memory Memory}
    (pass : (if status = 0 then Pure.pure (.leave current) else Pure.pure (.next current) :
      IdeProgram σ (Pass Memory Memory)) middle = .leave (ended, after)) :
    (if status = 0 then .leave current else .next current) = ended ∧ middle = after := by
  split at pass
  all_goals
    rename_i decided
    injection pass with same
    injection same with sameEnd sameState
    simp [decided, sameEnd, sameState]

/-- The attempts go on until one succeeds. -/
theorem readDataRetry_converges :
    Converges (fun fuel => readDataRetry bus fuel uIoBase memory buf size) state stored after ↔
      Delivers bus uIoBase buf size memory state stored after := by
  refine Iff.trans (converges_loop ?_) ⟨fun iterates => ?_, fun delivers => ?_⟩
  · exact fun _ => .const _
  · induction iterates with
    | leave pass =>
        obtain ⟨_, ended⟩ := pass
        obtain ⟨⟨status, current⟩, middle, attempt, pass⟩ := bind_leave.mp ended
        obtain ⟨same, rfl⟩ := attempt_ends pass
        split at same
        · injection same with same
          subst same
          rename status = 0 => zero
          rw [zero] at attempt
          exact .now attempt
        · cases same
    | next pass _ ih =>
        obtain ⟨_, ended⟩ := pass
        obtain ⟨⟨status, current⟩, middle, attempt, pass⟩ := bind_leave.mp ended
        obtain ⟨same, rfl⟩ := attempt_ends pass
        split at same
        · cases same
        · injection same with same
          subst same
          rename status ≠ 0 => failed
          exact .again status attempt failed ih
  · induction delivers with
    | now attempt => exact .leave ⟨0, bind_leave.mpr ⟨_, _, attempt, rfl⟩⟩
    | again status attempt failed _ ih =>
        exact .next ⟨0, bind_leave.mpr ⟨_, _, attempt, congrFun (if_neg failed) _⟩⟩ ih

end DataPhase

/-- From these states on the drive asks for no data to be taken, or always reports an
error. -/
structure Hopeless (bus : PortBus σ) (base : UInt16) (Dead : σ → Prop) : Prop where
  inByte : ∀ ports wAds, Dead ports → Dead (bus.inByte ports wAds).2
  inWord : ∀ ports wAds, Dead ports → Dead (bus.inWord ports wAds).2
  refuses : (∀ ports, Dead ports → ¬Requests (bus.inByte ports (ideRegAltstatus base)).1) ∨
    ∀ ports, Dead ports → (bus.inByte ports (ideRegAltstatus base)).1 &&& 0x01 ≠ 0

section Hopeless

variable {Dead : σ → Prop} {buf size : Nat} {memory stored : Memory} {state after : IdeState σ}

/-- What is ensured after a read of a port. -/
theorem ensures_input {α : Type} {rest : Byte → IdeProgram σ α} {cut : IdeState σ → Prop}
    {returned : α → IdeState σ → Prop} (wAds : UInt16)
    (ensured : (rest (bus.inByte state.ports wAds).1).Ensures
      { ports := (bus.inByte state.ports wAds).2
        trace := state.trace ++ [.inByte wAds (bus.inByte state.ports wAds).1] } cut returned) :
    (ioInputByte bus wAds >>= rest).Ensures state cut returned := ensured

/-- A drive without hope is never found ready. -/
theorem Hopeless.poll (hopeless : Hopeless bus uIoBase Dead) (i : Nat) (dead : Dead state.ports) :
    (pollDataReady bus uIoBase i).Ensures state (fun _ => False) fun n after =>
      n ≠ 0 ∧ Dead after.ports := by
  have kept := hopeless.inByte state.ports (ideRegAltstatus uIoBase) dead
  induction i generalizing state with
  | zero =>
      refine ensures_input _ (ensures_ite.mpr ⟨fun _ => ?_, fun _ => ?_⟩)
      · exact ⟨Nat.succ_ne_zero 1, kept⟩
      · exact ⟨Nat.one_ne_zero, kept⟩
  | succ i ih =>
      have keptTwice := hopeless.inByte _ (ideRegAltstatus uIoBase) kept
      refine ensures_input _ (ensures_ite.mpr ⟨fun asking => ?_, fun _ => ih kept keptTwice⟩)
      refine ensures_input _ (ensures_ite.mpr ⟨fun _ => ?_, fun fine => ?_⟩)
      · exact ⟨Nat.succ_ne_zero 1, keptTwice⟩
      · cases hopeless.refuses with
        | inl silent => exact absurd asking (silent state.ports dead)
        | inr failing => exact absurd (failing _ kept) fine

/-- Every attempt fails. -/
theorem Hopeless.readData (hopeless : Hopeless bus uIoBase Dead) (dead : Dead state.ports) :
    (bootIdeReadData bus uIoBase memory buf size).Ensures state (fun _ => False)
      fun outcome after => outcome.1 ≠ 0 ∧ Dead after.ports := by
  refine (hopeless.poll dataReadyPolls dead).andThen ?_
  rintro n middle ⟨nonzero, dead⟩
  refine ensures_ite.mpr ⟨fun _ => ?_, fun zero => absurd nonzero zero⟩
  exact ⟨Nat.one_ne_zero, dead⟩

/-- So it never delivers: by induction on the attempts. -/
theorem Hopeless.not_delivers (hopeless : Hopeless bus uIoBase Dead)
    (delivers : Delivers bus uIoBase buf size memory state stored after) : ¬Dead state.ports := by
  induction delivers with
  | now attempt =>
      intro dead
      exact ((hopeless.readData dead).of_returned attempt).1 rfl
  | again status attempt failed _ ih =>
      intro dead
      exact ih ((hopeless.readData dead).of_returned attempt).2

end Hopeless

/-! ## The whole read -/

section SectorRead

variable {tsaHarddiskInfo : Int → DriveInfo} {nDriveIndex : Int}

/-- The part of the read before its data phase comes to `start`. -/
abbrev Begins (bus : PortBus σ) (tsaHarddiskInfo : Int → DriveInfo) (stack : Memory)
    (nDriveIndex : Int) (block : UInt32) (nBytes : Int32) (state : IdeState σ)
    (start : Except Nat Nat) (middle : IdeState σ) : Prop :=
  Converges (fun fuel => startSector bus fuel tsaHarddiskInfo stack nDriveIndex block nBytes)
    state start middle

/-- The read as a whole comes to `outcome`. -/
abbrev Finishes (bus : PortBus σ) (tsaHarddiskInfo : Int → DriveInfo) (stack : Memory)
    (nDriveIndex : Int) (memory : Memory) (pbBuffer : Nat) (block : UInt32)
    (byteOffset nBytes : Int32) (state : IdeState σ) (outcome : Nat × Memory)
    (after : IdeState σ) : Prop :=
  Converges (fun fuel => bootIdeReadSector bus fuel tsaHarddiskInfo stack nDriveIndex memory
    pbBuffer block byteOffset nBytes) state outcome after

/-- Where a block is read to, and in which memory. -/
def blockTarget (info : DriveInfo) (nBytes : Int32) (stack memory : Memory) (pbBuffer : Nat) :
    Memory × Nat :=
  if info.mFAtapi = false ∧ nBytes ≠ 512 then (stack, 0) else (memory, pbBuffer)

variable {stack memory : Memory} {pbBuffer : Nat} {block : UInt32} {byteOffset nBytes : Int32}
  {state middle after : IdeState σ} {start : Except Nat Nat} {outcome : Nat × Memory}

/-- A bound that is large enough for the first part stays so. -/
theorem startSector_steady :
    Steady fun fuel => startSector bus fuel tsaHarddiskInfo stack nDriveIndex block nBytes :=
  (startSector_ending relenting_false stack block nBytes).steady

/-- A read that gives up returns what is not zero. -/
theorem Begins.status_ne_zero {status : Nat}
    (begins : Begins bus tsaHarddiskInfo stack nDriveIndex block nBytes state (.error status)
      middle) : status ≠ 0 := by
  obtain ⟨fuel, ended⟩ := begins
  obtain ⟨_, _, started⟩ := (startSector_emits stack block nBytes state).of_returned ended
  generalize (tsaHarddiskInfo nDriveIndex).mFAtapi = atapi at started
  cases started with
  | ended nonzero => exact nonzero

/-- The read from its data phase on. -/
def finishSector (bus : PortBus σ) (fuel : Nat) (info : DriveInfo) (stack memory : Memory)
    (pbBuffer : Nat) (byteOffset nBytes : Int32) :
    Except Nat Nat → IdeProgram σ (Nat × Memory)
  | .error status => pure (status, memory)
  | .ok size =>
    if info.mFAtapi = false ∧ nBytes ≠ 512 then do
      let baBufferSector ← readDataRetry bus fuel info.mFwPortBase stack 0 size
      pure (0, memory.memcpy pbBuffer baBufferSector byteOffset.toUInt32.toNat
        nBytes.toUInt32.toNat)
    else do
      let memory ← readDataRetry bus fuel info.mFwPortBase memory pbBuffer size
      pure (0, memory)

/-- A read is its first part, and its data phase if that is reached. -/
theorem bootIdeReadSector_eq (fuel : Nat) :
    bootIdeReadSector bus fuel tsaHarddiskInfo stack nDriveIndex memory pbBuffer block byteOffset
      nBytes = startSector bus fuel tsaHarddiskInfo stack nDriveIndex block nBytes >>=
        finishSector bus fuel (tsaHarddiskInfo nDriveIndex) stack memory pbBuffer byteOffset
          nBytes := by
  unfold bootIdeReadSector finishSector
  congr 1

/-- A bound that is large enough for the data phase stays so. -/
theorem finishSector_steady (info : DriveInfo) (start : Except Nat Nat) :
    Steady fun fuel =>
      finishSector bus fuel info stack memory pbBuffer byteOffset nBytes start := by
  cases start with
  | error status => exact .const _
  | ok size =>
      exact .ite (readDataRetry_steady.bind fun _ => .const _)
        (readDataRetry_steady.bind fun _ => .const _)

/-- The read goes on from where its first part ended. -/
theorem Begins.finishes_iff
    (begins : Begins bus tsaHarddiskInfo stack nDriveIndex block nBytes state start middle) :
    Finishes bus tsaHarddiskInfo stack nDriveIndex memory pbBuffer block byteOffset nBytes state
      outcome after ↔
    Converges (fun fuel => finishSector bus fuel (tsaHarddiskInfo nDriveIndex) stack memory pbBuffer
      byteOffset nBytes start) middle outcome after := by
  unfold Finishes
  simp only [bootIdeReadSector_eq]
  refine (converges_bind startSector_steady (finishSector_steady _)).trans ⟨?_, ?_⟩
  · rintro ⟨start', middle', begins', finishes⟩
    obtain ⟨rfl, rfl⟩ := begins.unique startSector_steady begins'
    exact finishes
  · exact fun finishes => ⟨start, middle, begins, finishes⟩

/-- A program that does no more than hand on what the attempts stored. -/
theorem converges_retry {base : UInt16} {buf size : Nat} {current : Memory}
    {result : Memory → Nat × Memory} :
    Converges (fun fuel => readDataRetry bus fuel base current buf size >>=
      fun bytes => pure (result bytes)) state outcome after ↔
        ∃ bytes, Delivers bus base buf size current state bytes after ∧ outcome = result bytes := by
  refine (converges_bind readDataRetry_steady ?_).trans ⟨?_, ?_⟩
  · exact fun _ => .const _
  · rintro ⟨bytes, middle, delivers, _, ended⟩
    injection ended with same
    injection same with sameOutcome sameState
    subst sameState
    exact ⟨bytes, readDataRetry_converges.mp delivers, sameOutcome.symm⟩
  · rintro ⟨bytes, delivers, rfl⟩
    exact ⟨bytes, after, readDataRetry_converges.mpr delivers, 0, rfl⟩

/-- A read that came to its data phase returns zero, and returns exactly if the drive
delivers. -/
theorem Begins.finishes_delivers {size : Nat}
    (begins : Begins bus tsaHarddiskInfo stack nDriveIndex block nBytes state (.ok size) middle)
    (memory : Memory) (pbBuffer : Nat) (byteOffset : Int32) :
    ∃ result : Memory → Nat × Memory, (∀ bytes, (result bytes).1 = 0) ∧ ∀ outcome after,
      Finishes bus tsaHarddiskInfo stack nDriveIndex memory pbBuffer block byteOffset nBytes state
        outcome after ↔
      ∃ bytes, Delivers bus (tsaHarddiskInfo nDriveIndex).mFwPortBase
        (blockTarget (tsaHarddiskInfo nDriveIndex) nBytes stack memory pbBuffer).2 size
        (blockTarget (tsaHarddiskInfo nDriveIndex) nBytes stack memory pbBuffer).1 middle
        bytes after ∧ outcome = result bytes := by
  by_cases part : (tsaHarddiskInfo nDriveIndex).mFAtapi = false ∧ nBytes ≠ 512
  · refine ⟨fun bytes => (0, memory.memcpy pbBuffer bytes byteOffset.toUInt32.toNat
      nBytes.toUInt32.toNat), fun _ => rfl, fun outcome after => begins.finishes_iff.trans ?_⟩
    simp only [finishSector, blockTarget, if_pos part]
    exact converges_retry
  · refine ⟨fun bytes => (0, bytes), fun _ => rfl, fun outcome after =>
      begins.finishes_iff.trans ?_⟩
    simp only [finishSector, blockTarget, if_neg part]
    exact converges_retry

/-- The data phase of a hopeless drive is not left. -/
theorem Begins.not_finishes {size : Nat} {Dead : σ → Prop}
    (begins : Begins bus tsaHarddiskInfo stack nDriveIndex block nBytes state (.ok size) middle)
    (hopeless : Hopeless bus (tsaHarddiskInfo nDriveIndex).mFwPortBase Dead)
    (dead : Dead middle.ports) :
    ¬∃ outcome after, Finishes bus tsaHarddiskInfo stack nDriveIndex memory pbBuffer block
      byteOffset nBytes state outcome after := by
  rintro ⟨outcome, after, finished⟩
  obtain ⟨_, -, finishes⟩ := begins.finishes_delivers memory pbBuffer byteOffset
  obtain ⟨bytes, delivers, -⟩ := (finishes outcome after).mp finished
  exact hopeless.not_delivers delivers dead

/-- Before the data phase a read ends if only the drive does not stay busy for ever. It
gives up there with a value that is not zero, or it goes on to the data phase. From there
it returns zero and nothing else, and it returns exactly if one of its attempts to take
the block succeeds: not from a drive that no longer asks for data to be taken, nor from
one that keeps reporting errors. Each attempt ends, whatever the drive does. -/
theorem sectorRead_ends_iff (bus : PortBus σ) (tsaHarddiskInfo : Int → DriveInfo) (stack : Memory)
    (nDriveIndex : Int) (memory : Memory) (pbBuffer : Nat) (block : UInt32)
    (byteOffset nBytes : Int32) (state : IdeState σ) :
    (∀ Live, Relenting bus (tsaHarddiskInfo nDriveIndex).mFwPortBase Live → Live state.ports →
      ∃ start middle,
        Begins bus tsaHarddiskInfo stack nDriveIndex block nBytes state start middle) ∧
    (∀ status middle,
      Begins bus tsaHarddiskInfo stack nDriveIndex block nBytes state (.error status) middle →
        status ≠ 0 ∧ ∀ outcome after, Finishes bus tsaHarddiskInfo stack nDriveIndex memory pbBuffer
          block byteOffset nBytes state outcome after ↔
            outcome = (status, memory) ∧ after = middle) ∧
    (∀ (current : Memory) (buf size : Nat) (before : IdeState σ), ∃ status stored after,
      bootIdeReadData bus (tsaHarddiskInfo nDriveIndex).mFwPortBase current buf size before =
        .leave ((status, stored), after)) ∧
    ∀ size middle,
      Begins bus tsaHarddiskInfo stack nDriveIndex block nBytes state (.ok size) middle →
        (∀ outcome after, Finishes bus tsaHarddiskInfo stack nDriveIndex memory pbBuffer block
          byteOffset nBytes state outcome after → outcome.1 = 0) ∧
        ((∃ outcome after, Finishes bus tsaHarddiskInfo stack nDriveIndex memory pbBuffer block
          byteOffset nBytes state outcome after) ↔
            ∃ stored after, Delivers bus (tsaHarddiskInfo nDriveIndex).mFwPortBase
              (blockTarget (tsaHarddiskInfo nDriveIndex) nBytes stack memory pbBuffer).2 size
              (blockTarget (tsaHarddiskInfo nDriveIndex) nBytes stack memory pbBuffer).1 middle
              stored after) ∧
        ∀ Dead, Hopeless bus (tsaHarddiskInfo nDriveIndex).mFwPortBase Dead → Dead middle.ports →
          ¬∃ outcome after, Finishes bus tsaHarddiskInfo stack nDriveIndex memory pbBuffer block
            byteOffset nBytes state outcome after := by
  refine ⟨?_, ?_, ?_, ?_⟩
  · intro Live relenting live
    obtain ⟨start, middle, begins, -⟩ :=
      (startSector_ending relenting stack block nBytes).ends state live
    exact ⟨start, middle, begins⟩
  · intro status middle begins
    refine ⟨begins.status_ne_zero, fun outcome after => begins.finishes_iff.trans ⟨?_, ?_⟩⟩
    · rintro ⟨_, ended⟩
      injection ended with same
      injection same with sameOutcome sameState
      exact ⟨sameOutcome.symm, sameState.symm⟩
    · rintro ⟨rfl, rfl⟩
      exact ⟨0, rfl⟩
  · intro current buf size before
    obtain ⟨⟨status, stored⟩, after, ended, -⟩ :=
      (readData_returns current buf size before).returns
    exact ⟨status, stored, after, ended⟩
  · intro size middle begins
    obtain ⟨result, zero, finishes⟩ := begins.finishes_delivers memory pbBuffer byteOffset
    refine ⟨?_, ⟨?_, ?_⟩, fun Dead => begins.not_finishes⟩
    · intro outcome after finished
      obtain ⟨bytes, -, rfl⟩ := (finishes outcome after).mp finished
      exact zero bytes
    · rintro ⟨outcome, after, finished⟩
      obtain ⟨bytes, delivers, -⟩ := (finishes outcome after).mp finished
      exact ⟨bytes, after, delivers⟩
    · rintro ⟨bytes, after, delivers⟩
      exact ⟨result bytes, after, (finishes _ _).mpr ⟨bytes, delivers, rfl⟩⟩

end SectorRead

/-! ## A drive that stays silent -/

/-- A drive that accepts every command and asks for nothing to be taken. -/
def silentBus : PortBus Unit where
  inByte _ _ := (0x40, ())
  inWord _ _ := (0, ())
  outByte _ _ _ := ()
  outWord _ _ _ := ()

/-- The drive is never busy. -/
theorem silentBus_relenting :
    Relenting silentBus (largeDrive 0).mFwPortBase fun _ => True := by
  have free : NotBusy (0x40 : Byte) := by decide
  exact ⟨fun _ _ => .now free, fun _ _ _ => trivial, fun _ _ _ => trivial,
    fun _ _ _ _ => trivial, fun _ _ _ _ => trivial⟩

/-- It takes the command and is to send a sector. -/
theorem silentBus_begins : ∃ middle, Begins silentBus largeDrive (fun _ => 0) 0 16 512
    { ports := (), trace := [] } (.ok 512) middle := ⟨_, 1, rfl⟩

/-- The first part of a read from that drive ends, and the data phase returns exactly if an
attempt succeeds. -/
theorem sectorRead_ends_iff_silentBus :
    (∃ start middle, Begins silentBus largeDrive (fun _ => 0) 0 16 512
      { ports := (), trace := [] } start middle) ∧
    ∃ middle, Begins silentBus largeDrive (fun _ => 0) 0 16 512 { ports := (), trace := [] }
        (.ok 512) middle ∧
      ((∃ outcome after, Finishes silentBus largeDrive (fun _ => 0) 0 (fun _ => 0) 0x1000 16 0 512
          { ports := (), trace := [] } outcome after) ↔
        ∃ stored after, Delivers silentBus (largeDrive 0).mFwPortBase
          (blockTarget (largeDrive 0) 512 (fun _ => 0) (fun _ => 0) 0x1000).2 512
          (blockTarget (largeDrive 0) 512 (fun _ => 0) (fun _ => 0) 0x1000).1 middle
          stored after) := by
  obtain ⟨ends, -, -, delivers⟩ := sectorRead_ends_iff silentBus largeDrive (fun _ => 0) 0
    (fun _ => 0) 0x1000 16 0 512 { ports := (), trace := [] }
  obtain ⟨middle, begins⟩ := silentBus_begins
  exact ⟨ends _ silentBus_relenting trivial, middle, begins, (delivers 512 middle begins).2.1⟩

/-- That drive is never busy, and a read of sector 16 from it does not end. -/
theorem silentRead_never_ends :
    Relenting silentBus (largeDrive 0).mFwPortBase (fun _ => True) ∧
      ¬∃ outcome after, Finishes silentBus largeDrive (fun _ => 0) 0 (fun _ => 0) 0x1000 16 0 512
        { ports := (), trace := [] } outcome after := by
  refine ⟨silentBus_relenting, ?_⟩
  have silent : ¬Requests (0x40 : Byte) := by decide
  have hopeless : Hopeless silentBus (largeDrive 0).mFwPortBase fun _ => True :=
    ⟨fun _ _ _ => trivial, fun _ _ _ => trivial, .inl fun _ _ => silent⟩
  obtain ⟨middle, begins⟩ := silentBus_begins
  exact begins.not_finishes hopeless trivial

end Cromwell.Ide
