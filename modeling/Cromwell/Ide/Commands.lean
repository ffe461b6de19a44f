import Cromwell.Ide.BootIde

/-!
# Which commands a run issues

Only `BootIdeIssueAtaCommand` writes the command register. The waits and the
transfers of data around it leave the registers of a command alone, so what a
sector read or write issues is one task file, between accesses that issue
nothing.
-/

namespace Cromwell.Ide

open Cromwell.Std Cromwell.Std.Program

variable {σ : Type} {bus : PortBus σ} {fuel : Nat} {uIoBase : UInt16}

/-- The access writes the command register. -/
def IsCommand (base : UInt16) : Access → Prop
  | .outByte wAds _ => wAds = ideRegCommand base
  | _ => False

instance (base : UInt16) : DecidablePred (IsCommand base)
  | .outByte wAds _ => inferInstanceAs (Decidable (wAds = ideRegCommand base))
  | .inByte _ _ => .isFalse id
  | .inWord _ _ => .isFalse id
  | .outWord _ _ => .isFalse id

/-- The access changes no register. -/
def IsRead : Access → Prop
  | .inByte _ _ => True
  | .inWord _ _ => True
  | _ => False

/-- The access reads, or transfers data. -/
def IsTransfer : Access → Prop
  | .outByte _ _ => False
  | _ => True

/-- No access of the trace issues a command. -/
def Silent (base : UInt16) (trace : List Access) : Prop := ∀ access ∈ trace, ¬IsCommand base access

/-- A read changes no register. -/
theorem IsRead.isTransfer {access : Access} (isRead : IsRead access) : IsTransfer access := by
  cases access with
  | outByte _ _ => exact isRead.elim
  | _ => exact trivial

/-- A transfer is no command. -/
theorem IsTransfer.not_isCommand {access : Access} (transfers : IsTransfer access) :
    ¬IsCommand uIoBase access := by
  cases access with
  | outByte _ _ => exact transfers.elim
  | _ => exact id

theorem silent_nil : Silent uIoBase [] := fun _ member => absurd member List.not_mem_nil

/-- Silent accesses stay so when more of them follow. -/
theorem Silent.append {first second : List Access} (silentFirst : Silent uIoBase first)
    (silentSecond : Silent uIoBase second) : Silent uIoBase (first ++ second) :=
  fun access member => (List.mem_append.mp member).elim (silentFirst access) (silentSecond access)

/-! ## Parts that only read -/

/-- The access reads the status. -/
def IsPoll (base : UInt16) (access : Access) : Prop :=
  ∃ status, access = .inByte (ideRegAltstatus base) status

/-- A poll is a read. -/
theorem IsPoll.isRead {access : Access} (isPoll : IsPoll uIoBase access) : IsRead access := by
  obtain ⟨status, rfl⟩ := isPoll
  trivial

/-- However it fares, the program only reads. -/
abbrev ReadsOnly {α : Type} (program : IdeProgram σ α) : Prop :=
  EmitsOnly IdeState.trace IsRead program

/-- The alternate status is what is polled. -/
theorem poll_polls : EmitsOnly IdeState.trace (IsPoll uIoBase)
    (ioInputByte bus (ideRegAltstatus uIoBase)) :=
  EmitsOnly.update (ε := Access) (fun _ => rfl) fun _ => ⟨_, rfl⟩

/-- Waiting for the drive only polls it. -/
theorem waitNotBusy_polls :
    EmitsOnly IdeState.trace (IsPoll uIoBase) (bootIdeWaitNotBusy bus fuel uIoBase) := by
  refine EmitsOnly.loop ?_ fuel ()
  intro _
  refine poll_polls.bind fun b => ?_
  exact .ite (.pure _) (.pure _)

/-- So does a number of polls for data. -/
theorem pollDataReady_polls (i : Nat) :
    EmitsOnly IdeState.trace (IsPoll uIoBase) (pollDataReady bus uIoBase i) := by
  induction i with
  | zero => exact poll_polls.bind fun _ => .ite (.pure _) (.pure _)
  | succ i ih =>
      refine poll_polls.bind fun _ => .ite ?_ ih
      exact poll_polls.bind fun _ => .ite (.pure _) (.pure _)

/-- So does waiting for data. -/
theorem waitDataReady_polls :
    EmitsOnly IdeState.trace (IsPoll uIoBase) (bootIdeWaitDataReady bus uIoBase) :=
  pollDataReady_polls dataReadyPolls

/-- Reading a byte is a read. -/
theorem ioInputByte_reads (wAds : UInt16) : ReadsOnly (ioInputByte bus wAds) :=
  EmitsOnly.update (ε := Access) (fun _ => rfl) fun _ => trivial

/-- Reading a word is a read. -/
theorem ioInputWord_reads (wAds : UInt16) : ReadsOnly (ioInputWord bus wAds) :=
  EmitsOnly.update (ε := Access) (fun _ => rfl) fun _ => trivial

/-- Waiting only reads. -/
theorem waitNotBusy_reads : ReadsOnly (bootIdeWaitNotBusy bus fuel uIoBase) :=
  waitNotBusy_polls.weaken fun _ => IsPoll.isRead

/-- Waiting for data only reads. -/
theorem waitDataReady_reads : ReadsOnly (bootIdeWaitDataReady bus uIoBase) :=
  waitDataReady_polls.weaken fun _ => IsPoll.isRead

/-- The words of a block are read. -/
theorem readWords_reads (size : Nat) (memory : Memory) (ptr : Nat) :
    ReadsOnly (readWords bus uIoBase size memory ptr) := by
  induction size, memory, ptr using readWords.induct with
  | case1 memory ptr => exact .pure memory
  | case2 memory ptr => exact .pure memory
  | case3 size memory ptr ih => exact (ioInputWord_reads _).bind ih

/-- A block is read without a command. -/
theorem readData_reads (memory : Memory) (buf size : Nat) :
    ReadsOnly (bootIdeReadData bus uIoBase memory buf size) := by
  refine waitDataReady_reads.bind fun _ => .ite (.pure _) ?_
  refine (readWords_reads _ _ _).bind fun _ => ?_
  refine (ioInputByte_reads _).bind fun _ => ?_
  exact (ioInputByte_reads _).bind fun _ => .ite (.pure _) (.pure _)

/-- However often a block is tried, no command is issued for it. -/
theorem readDataRetry_reads (memory : Memory) (buf size : Nat) :
    ReadsOnly (readDataRetry bus fuel uIoBase memory buf size) := by
  refine EmitsOnly.loop (fun memory => ?_) fuel memory
  exact (readData_reads _ _ _).bind fun _ => .ite (.pure _) (.pure _)

/-! ## Parts that only transfer -/

/-- However it fares, the program writes no register. -/
abbrev TransfersOnly {α : Type} (program : IdeProgram σ α) : Prop :=
  EmitsOnly IdeState.trace IsTransfer program

/-- Reads are transfers. -/
theorem ReadsOnly.transfers {α : Type} {program : IdeProgram σ α} (reads : ReadsOnly program) :
    TransfersOnly program :=
  EmitsOnly.weaken reads fun _ => IsRead.isTransfer

/-- The words of a block are written to the data register. -/
theorem writeWords_transfers (words : List UInt16) :
    TransfersOnly (writeWords bus uIoBase words) := by
  induction words with
  | nil => exact .pure ()
  | cons word words ih =>
      have sent : TransfersOnly (ioOutputWord bus (ideRegData uIoBase) word) :=
        EmitsOnly.update (ε := Access) (fun _ => rfl) fun _ => trivial
      exact sent.bind fun _ => ih

/-- A block is written without a command. -/
theorem writeData_transfers (memory : Memory) (buf size : Nat) :
    TransfersOnly (bootIdeWriteData bus fuel uIoBase memory buf size) := by
  refine waitDataReady_reads.transfers.bind fun _ => ?_
  refine (writeWords_transfers _).bind fun _ => ?_
  refine waitNotBusy_reads.transfers.bind fun _ => .ite (.pure _) ?_
  exact (ioInputByte_reads _).transfers.bind fun _ => .ite (.pure _) (.pure _)

/-! ## Parts that return -/

/-- The polls for data are counted. -/
theorem pollDataReady_returns (i : Nat) :
    Returns (pollDataReady bus uIoBase i) := by
  induction i with
  | zero => exact (Returns.update _).bind fun _ => .ite (.pure _) (.pure _)
  | succ i ih =>
      refine (Returns.update _).bind fun _ => .ite ?_ ih
      exact (Returns.update _).bind fun _ => .ite (.pure _) (.pure _)

/-- So the wait for data ends whatever the drive answers. -/
theorem waitDataReady_returns : Returns (bootIdeWaitDataReady bus uIoBase) :=
  pollDataReady_returns dataReadyPolls

/-- Words are written one after the other. -/
theorem writeWords_returns (words : List UInt16) :
    Returns (writeWords bus uIoBase words) := by
  induction words with
  | nil => exact .pure ()
  | cons word words ih => exact (Returns.update _).bind fun _ => ih

/-- Words are read one after the other. -/
theorem readWords_returns (size : Nat) (memory : Memory) (ptr : Nat) :
    Returns (readWords bus uIoBase size memory ptr) := by
  induction size, memory, ptr using readWords.induct with
  | case1 memory ptr => exact .pure memory
  | case2 memory ptr => exact .pure memory
  | case3 size memory ptr ih => exact (Returns.update _).bind ih

/-- Reading a block gives up on a drive that has no data, so it returns. -/
theorem readData_returns (memory : Memory) (buf size : Nat) :
    Returns (bootIdeReadData bus uIoBase memory buf size) := by
  refine waitDataReady_returns.bind fun _ => .ite (.pure _) ?_
  refine (readWords_returns _ _ _).bind fun _ => (Returns.update _).bind fun _ => ?_
  exact (Returns.update _).bind fun _ => .ite (.pure _) (.pure _)

/-! ## Parts that issue one command -/

/-- The accesses that write the registers of a command, and the command. -/
def taskFileWrites (base : UInt16) (command : IdeCommand) (params : IdeCommandParams) :
    List Access :=
  [.outByte (ideRegSectorCount base) params.mBCountSectorExt,
    .outByte (ideRegSectorNumber base) params.mBSectorExt,
    .outByte (ideRegCylinderLsb base) (params.mWCylinderExt &&& 0xFF).toUInt8,
    .outByte (ideRegCylinderMsb base) (params.mWCylinderExt >>> 8).toUInt8,
    .outByte (ideRegSectorCount base) params.mBCountSector,
    .outByte (ideRegSectorNumber base) params.mBSector,
    .outByte (ideRegCylinderLsb base) (params.mWCylinder &&& 0xFF).toUInt8,
    .outByte (ideRegCylinderMsb base) (params.mWCylinder >>> 8).toUInt8,
    .outByte (ideRegDrivehead base) params.mBDrivehead,
    .outByte (ideRegCommand base) command.code]

/-- The registers are written in the order of the task file. -/
theorem writeTaskFile_emits {cut : List Access → Prop} (command : IdeCommand)
    (params : IdeCommandParams) :
    Emits (writeTaskFile bus uIoBase command params) cut fun _ emitted =>
      emitted = taskFileWrites uIoBase command params :=
  fun _ => ⟨taskFileWrites uIoBase command params, by
    simp [taskFileWrites], rfl⟩

/-- The trace is one task file between accesses that issue no command. -/
def Issues (base : UInt16) (command : IdeCommand) (params : IdeCommandParams)
    (trace : List Access) : Prop :=
  ∃ before after, Silent base before ∧ Silent base after ∧
    trace = before ++ (taskFileWrites base command params ++ after)

/-- The program issues this command and no other, unless it is cut off before. -/
def IssuesOnce {α : Type} (base : UInt16) (command : IdeCommand) (params : IdeCommandParams)
    (program : IdeProgram σ α) : Prop :=
  Emits program (fun trace => Silent base trace ∨ Issues base command params trace)
    fun _ => Issues base command params

/-- However it fares, the program issues no command. -/
abbrev SilentOnly {α : Type} (base : UInt16) (program : IdeProgram σ α) : Prop :=
  EmitsOnly IdeState.trace (fun access => ¬IsCommand base access) program

/-- Transfers set no register and issue no command. -/
theorem TransfersOnly.silent {α : Type} {program : IdeProgram σ α}
    (transfers : TransfersOnly program) : SilentOnly uIoBase program :=
  EmitsOnly.weaken transfers fun _ => IsTransfer.not_isCommand

section Issuing

variable {α β : Type} {command : IdeCommand} {params : IdeCommandParams}
  {program : IdeProgram σ α} {rest : α → IdeProgram σ β}

/-- A command may come after parts that issue none. -/
theorem IssuesOnce.after (first : SilentOnly uIoBase program)
    (second : ∀ result, IssuesOnce uIoBase command params (rest result)) :
    IssuesOnce uIoBase command params (program >>= rest) := by
  have weaker : Emits program
      (fun trace => Silent uIoBase trace ∨ Issues uIoBase command params trace)
      fun _ => Silent uIoBase := first.mono (fun _ => .inl) fun _ _ held => held
  refine weaker.andThen ?_
  intro result emitted silent
  have prefixed : ∀ later, Issues uIoBase command params later →
      Issues uIoBase command params (emitted ++ later) := by
    rintro later ⟨before, after, silentBefore, silentAfter, rfl⟩
    exact ⟨emitted ++ before, after, silent.append silentBefore, silentAfter,
      (List.append_assoc _ _ _).symm⟩
  refine (second result).mono ?_ ?_
  · rintro later (quiet | issues)
    · exact .inl (silent.append quiet)
    · exact .inr (prefixed later issues)
  · exact fun _ later => prefixed later

/-- After a command there may be parts that issue none. -/
theorem IssuesOnce.before (first : IssuesOnce uIoBase command params program)
    (second : ∀ result, SilentOnly uIoBase (rest result)) :
    IssuesOnce uIoBase command params (program >>= rest) := by
  refine Emits.andThen first ?_
  rintro result emitted ⟨before, after, silentBefore, silentAfter, rfl⟩
  have extended : ∀ later, Silent uIoBase later → Issues uIoBase command params
      (before ++ (taskFileWrites uIoBase command params ++ after) ++ later) :=
    fun later silent => ⟨before, after ++ later, silentBefore, silentAfter.append silent, by simp⟩
  exact (second result).mono (fun later silent => .inr (extended later silent))
    fun _ => extended

/-- A command is issued once, after its registers have been set. -/
theorem issueAtaCommand_issues (command : IdeCommand) (params : IdeCommandParams) :
    IssuesOnce uIoBase command params
      (bootIdeIssueAtaCommand bus fuel uIoBase command params) := by
  refine .after (ioInputByte_reads _).transfers.silent fun _ => ?_
  refine .after waitNotBusy_reads.transfers.silent fun _ => ?_
  have written : IssuesOnce uIoBase command params
      (writeTaskFile bus uIoBase command params) := by
    refine (writeTaskFile_emits command params).mono (fun _ held => held) ?_
    rintro _ emitted rfl
    exact ⟨[], [], silent_nil, silent_nil, by simp⟩
  refine written.before fun _ => waitNotBusy_reads.transfers.silent.bind fun _ => ?_
  exact .ite (.pure _) (.pure _)

end Issuing

end Cromwell.Ide
