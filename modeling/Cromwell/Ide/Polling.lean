import Cromwell.Ide.Security
import Cromwell.Std.Trace

/-!
# What the waits and the blocks of data emit

A wait polls the status while the drive is busy and ends with the first answer
that is not. A block of data is a number of reads, the words, and more reads the
last of which found the drive not busy. Both are stated for any answers at all.
-/

namespace Cromwell.Ide

open Cromwell.Std Cromwell.Std.Program

variable {σ : Type} {bus : PortBus σ} {fuel : Nat} {uIoBase : UInt16}

/-! ## Reads -/

/-- All accesses are reads. -/
def Reads (trace : List Access) : Prop := ∀ access ∈ trace, IsRead access

theorem reads_nil : Reads [] := fun _ member => absurd member List.not_mem_nil

/-- Reads stay so when more of them follow. -/
theorem Reads.append {first second : List Access} (readsFirst : Reads first)
    (readsSecond : Reads second) : Reads (first ++ second) :=
  fun access member => (List.mem_append.mp member).elim (readsFirst access) (readsSecond access)

/-- Reads transfer no word to the drive. -/
theorem Reads.dataWords {trace : List Access} (reads : Reads trace) :
    dataWords uIoBase trace = [] := by
  refine List.filterMap_eq_nil_iff.mpr ?_
  intro access member
  have isRead := reads access member
  cases access with
  | inByte _ _ => rfl
  | inWord _ _ => rfl
  | outByte _ _ => rfl
  | outWord _ _ => exact isRead.elim

/-! ## Waiting until the drive is not busy -/

/-- All accesses are polls that found the drive busy. -/
def Polls (base : UInt16) (trace : List Access) : Prop :=
  ∀ access ∈ trace, ∃ status, access = .inByte (ideRegAltstatus base) status ∧ ¬NotBusy status

/-- The polls of a wait that ended with the given answer. -/
def Answered (base : UInt16) (status : Byte) (trace : List Access) : Prop :=
  ∃ polls, Polls base polls ∧ NotBusy status ∧
    trace = polls ++ [.inByte (ideRegAltstatus base) status]

/-- Polls are reads. -/
theorem Polls.reads {trace : List Access} (polls : Polls uIoBase trace) : Reads trace := by
  intro access member
  obtain ⟨status, rfl, -⟩ := polls access member
  trivial

/-- The wait that ends in an answer polls only. -/
theorem Answered.polls {status : Byte} {trace : List Access}
    (answered : Answered uIoBase status trace) : ∀ access ∈ trace, IsPoll uIoBase access := by
  obtain ⟨polls, busy, -, rfl⟩ := answered
  intro access member
  cases List.mem_append.mp member with
  | inl before =>
      obtain ⟨found, same, -⟩ := busy access before
      exact ⟨found, same⟩
  | inr last => exact ⟨status, List.mem_singleton.mp last⟩

/-- So it only reads. -/
theorem Answered.reads {status : Byte} {trace : List Access}
    (answered : Answered uIoBase status trace) : Reads trace := by
  obtain ⟨polls, busy, -, rfl⟩ := answered
  refine busy.reads.append ?_
  intro access member
  rw [List.mem_singleton.mp member]
  trivial

/-- While it is waited, every status read was busy. -/
theorem Polls.statuses {trace : List Access} (polls : Polls uIoBase trace) {status : Byte}
    (member : status ∈ statuses uIoBase trace) : ¬NotBusy status := by
  obtain ⟨access, inTrace, found⟩ := List.mem_filterMap.mp member
  obtain ⟨polled, rfl, busy⟩ := polls access inTrace
  have same : polled = status := by simpa using found
  rwa [← same]

/-- One poll gives one status. -/
theorem statuses_answer (status : Byte) :
    statuses uIoBase [.inByte (ideRegAltstatus uIoBase) status] = [status] := by
  simp [statuses]

/-- The wait ends with a status that is not busy, whose error bit is returned; cut off, it
has seen busy only. -/
theorem waitNotBusy_emits :
    Emits (bootIdeWaitNotBusy bus fuel uIoBase) (Polls uIoBase) fun n trace =>
      ∃ status, Answered uIoBase status trace ∧ n = status &&& 1 := by
  refine Emits.loop (fun _ => Polls uIoBase) (fun _ _ held => held) ?_ fuel
    fun _ member => absurd member List.not_mem_nil
  intro _ polls busy
  refine (ioInputByte_emits _).andThen ?_
  rintro b emitted rfl
  refine .ite (fun stillBusy => .pure ?_) fun free => .pure ?_
  · intro access member
    rw [List.append_nil] at member
    cases List.mem_append.mp member with
    | inl before => exact busy access before
    | inr last => exact ⟨b, List.mem_singleton.mp last, stillBusy⟩
  · refine ⟨b, ⟨polls, busy, not_not.mp free, ?_⟩, rfl⟩
    rw [List.append_nil]

/-! ## Commands -/

/-- One task file after reads, and what was answered to it. -/
def Commanded (base : UInt16) (command : IdeCommand) (params : IdeCommandParams)
    (answered : List Access → Prop) (trace : List Access) : Prop :=
  ∃ waited answer, Reads waited ∧ answered answer ∧
    trace = waited ++ (taskFileWrites base command params ++ answer)

/-- What is said of the answer to a command may be weakened. -/
theorem Commanded.mono {command : IdeCommand} {params : IdeCommandParams} {trace : List Access}
    {answered answered' : List Access → Prop}
    (commanded : Commanded uIoBase command params answered trace)
    (weaker : ∀ answer, answered answer → answered' answer) :
    Commanded uIoBase command params answered' trace := by
  obtain ⟨waited, answer, reads, held, same⟩ := commanded
  exact ⟨waited, answer, reads, weaker answer held, same⟩

/-- The drive was asked to execute a command, and refused or accepted it. -/
theorem issueAtaCommand_emits (command : IdeCommand) (params : IdeCommandParams) :
    Emits (bootIdeIssueAtaCommand bus fuel uIoBase command params)
      (fun trace => Reads trace ∨ Commanded uIoBase command params (Polls uIoBase) trace)
      fun n trace => ∃ status, Commanded uIoBase command params (Answered uIoBase status) trace ∧
        (n = 0 ↔ status &&& 1 = 0) := by
  have waits : Emits (bootIdeWaitNotBusy bus fuel uIoBase)
      (fun trace => Reads trace ∨ Commanded uIoBase command params (Polls uIoBase) trace)
      fun _ => Reads := waitNotBusy_reads.mono (fun _ => .inl) fun _ _ held => held
  have first : Emits (ioInputByte bus (ideRegStatus uIoBase))
      (fun trace => Reads trace ∨ Commanded uIoBase command params (Polls uIoBase) trace)
      fun _ => Reads := (ioInputByte_reads _).mono (fun _ => .inl) fun _ _ held => held
  refine first.andThen ?_
  intro _ read reads
  have prefixed : ∀ later, Reads later ∨ Commanded uIoBase command params (Polls uIoBase) later →
      Reads (read ++ later) ∨
        Commanded uIoBase command params (Polls uIoBase) (read ++ later) := by
    rintro later (quiet | ⟨waited, answer, quiet, held, rfl⟩)
    · exact .inl (reads.append quiet)
    · exact .inr ⟨read ++ waited, answer, reads.append quiet, held, by simp⟩
  refine (waits.mono prefixed fun _ _ held => held).andThen ?_
  intro _ waited quiet
  refine (writeTaskFile_emits command params).andThen ?_
  rintro _ _ rfl
  refine (waitNotBusy_emits.mono ?_ fun _ _ held => held).andThen ?_
  · intro polls busy
    exact .inr ⟨read ++ waited, polls, reads.append quiet, busy, by simp⟩
  · rintro n answer ⟨status, answered, rfl⟩
    have commanded : Commanded uIoBase command params (Answered uIoBase status)
        (read ++ (waited ++ (taskFileWrites uIoBase command params ++ (answer ++ [])))) :=
      ⟨read ++ waited, answer, reads.append quiet, answered, by simp⟩
    refine .ite (fun refused => .pure ⟨status, commanded, ?_⟩)
      fun accepted => .pure ⟨status, commanded, ?_⟩
    · exact iff_of_false (by decide) refused
    · exact iff_of_true rfl (not_not.mp accepted)

/-! ## Blocks of data -/

/-- Words are written in turn. -/
theorem writeWords_emits {cut : List Access → Prop} (words : List UInt16) :
    Emits (writeWords bus uIoBase words) cut fun _ emitted =>
      emitted = words.map (.outWord (ideRegData uIoBase)) := by
  refine Emits.of_returns ?_ (writeWords_returns words)
  induction words with
  | nil => exact .pure rfl
  | cons word words ih =>
      refine (ioOutputWord_emits _ word).andThen ?_
      rintro _ _ rfl
      refine ih.mono (fun _ held => held) ?_
      rintro _ _ rfl
      rfl

/-- A block of words after reads; while the drive is busy with it there are polls, and
once it is not there may be more reads. -/
def Sent (base : UInt16) (words : List UInt16) (settled : List Access → Prop)
    (trace : List Access) : Prop :=
  ∃ asked after, Reads asked ∧ settled after ∧
    trace = asked ++ (words.map (.outWord (ideRegData base)) ++ after)

/-- The reads after which the drive is known not to be busy. -/
def Settled (base : UInt16) (trace : List Access) : Prop :=
  Reads trace ∧ ∃ status ∈ statuses base trace, NotBusy status

/-- A wait that has ended has settled. -/
theorem Answered.settled {status : Byte} {trace : List Access}
    (answered : Answered uIoBase status trace) : Settled uIoBase trace := by
  refine ⟨answered.reads, status, ?_, ?_⟩
  · obtain ⟨polls, -, -, rfl⟩ := answered
    rw [statuses_append, statuses_answer]
    exact List.mem_append_right _ (List.mem_singleton.mpr rfl)
  · obtain ⟨-, -, free, -⟩ := answered
    exact free

/-- Reads leave it settled. -/
theorem Settled.append {first second : List Access} (settled : Settled uIoBase first)
    (reads : Reads second) : Settled uIoBase (first ++ second) := by
  obtain ⟨readsFirst, status, member, free⟩ := settled
  refine ⟨readsFirst.append reads, status, ?_, free⟩
  rw [statuses_append]
  exact List.mem_append_left _ member

/-- The words are sent whether or not the drive asks for them. -/
theorem writeData_emits (memory : Memory) (buf size : Nat) :
    Emits (bootIdeWriteData bus fuel uIoBase memory buf size)
      (Sent uIoBase (blockWords memory buf size) (Polls uIoBase))
      fun _ => Sent uIoBase (blockWords memory buf size) (Settled uIoBase) := by
  refine Emits.andThen (waitDataReady_reads.emits.of_returns waitDataReady_returns) ?_
  intro _ asked reads
  refine (writeWords_emits _).andThen ?_
  rintro _ _ rfl
  refine (waitNotBusy_emits.mono ?_ fun _ _ held => held).andThen ?_
  · exact fun polls busy => ⟨asked, polls, reads, busy, rfl⟩
  · rintro n answer ⟨status, answered, rfl⟩
    refine .ite (fun _ => .pure ?_) fun _ => ?_
    · exact ⟨asked, answer ++ [], reads, answered.settled.append reads_nil, rfl⟩
    · refine (ioInputByte_emits _).andThen ?_
      rintro b _ rfl
      have read : Reads [.inByte (ideRegAltstatus uIoBase) b] := fun access member => by
        rw [List.mem_singleton.mp member]
        trivial
      refine .ite (fun _ => .pure ?_) fun _ => .pure ?_
      · exact ⟨asked, _, reads, answered.settled.append (read.append reads_nil), rfl⟩
      · exact ⟨asked, _, reads, answered.settled.append (read.append reads_nil), rfl⟩

/-! ## A command with a block -/

/-- The drive refused a command. -/
def Refused (base : UInt16) (answer : List Access) : Prop :=
  ∃ status, Answered base status answer ∧ status &&& 1 ≠ 0

/-- The drive accepted a command and was sent its block. -/
def Taken (base : UInt16) (words : List UInt16) (settled : List Access → Prop)
    (answer : List Access) : Prop :=
  ∃ status first rest, Answered base status first ∧ status &&& 1 = 0 ∧
    Sent base words settled rest ∧ answer = first ++ rest

/-- A command after which data is asked for is followed by the words written. -/
theorem commanded_taken {command : IdeCommand} {params : IdeCommandParams} {status : Byte}
    {waited first asked after : List Access} {words : List UInt16} {settled : List Access → Prop}
    (reads : Reads waited) (answered : Answered uIoBase status first) (clear : status &&& 1 = 0)
    (readsAsked : Reads asked) (held : settled after) :
    Commanded uIoBase command params (Taken uIoBase words settled)
      (waited ++ (taskFileWrites uIoBase command params ++ (first ++
        (asked ++ (words.map (.outWord (ideRegData uIoBase)) ++ after))))) :=
  ⟨waited, _, reads, ⟨status, first, _, answered, clear, ⟨asked, after, readsAsked, held, rfl⟩,
    rfl⟩, rfl⟩

/-- A block is sent behind its command, or the command was refused. -/
theorem sendBlock_emits (bus : PortBus σ) (fuel : Nat) (uIoBase : UInt16) (ideCmd : IdeCommand)
    (driveId : Int) (ideCmdData : Memory) :
    Emits (sendBlock bus fuel uIoBase ideCmd driveId ideCmdData)
      (fun trace => Reads trace ∨
        Commanded uIoBase ideCmd { mBDrivehead := selectDrive driveId } (fun answer =>
          Polls uIoBase answer ∨ Taken uIoBase (blockWords ideCmdData 0 ideSectorSize) Reads
            answer) trace)
      fun sent => Commanded uIoBase ideCmd { mBDrivehead := selectDrive driveId } fun answer =>
        match sent with
        | none => Refused uIoBase answer
        | some _ => Taken uIoBase (blockWords ideCmdData 0 ideSectorSize) (Settled uIoBase)
            answer := by
  refine ((issueAtaCommand_emits _ _).mono ?_ fun _ _ held => held).andThen ?_
  · exact fun trace cut => cut.imp id fun commanded => commanded.mono fun _ => .inl
  rintro n answer ⟨status, ⟨waited, first, reads, answered, rfl⟩, result⟩
  refine .ite (fun refused => .pure ?_) fun accepted => ?_
  · refine ⟨waited, first, reads, ⟨status, answered, ?_⟩, by simp⟩
    exact fun clear => refused (result.mpr clear)
  have clear : status &&& 1 = 0 := result.mp (not_not.mp accepted)
  refine Emits.andThen (waitDataReady_reads.emits.of_returns waitDataReady_returns) ?_
  intro _ asked (readsAsked : Reads asked)
  -- While the drive is still busy with the block, what was sent of it is followed by reads.
  have cutOff : ∀ more after, Reads more → Reads after →
      Commanded uIoBase ideCmd { mBDrivehead := selectDrive driveId } (fun answer =>
        Polls uIoBase answer ∨
          Taken uIoBase (blockWords ideCmdData 0 ideSectorSize) Reads answer)
      (waited ++ (taskFileWrites uIoBase ideCmd { mBDrivehead := selectDrive driveId } ++ first) ++
        (asked ++ (more ++ ((blockWords ideCmdData 0 ideSectorSize).map
          (.outWord (ideRegData uIoBase)) ++ after)))) := by
    intro more after readsMore readsAfter
    have shape : Commanded uIoBase ideCmd { mBDrivehead := selectDrive driveId }
        (Taken uIoBase (blockWords ideCmdData 0 ideSectorSize) Reads) _ :=
      commanded_taken reads answered clear (readsAsked.append readsMore) readsAfter
    simpa [List.append_assoc] using shape.mono fun _ => .inr
  refine ((writeData_emits _ _ _).mono ?_ fun _ _ held => held).andThen ?_
  · rintro block ⟨more, polls, readsMore, busy, rfl⟩
    exact .inr (cutOff more polls readsMore busy.reads)
  rintro _ block ⟨more, after, readsMore, settled, rfl⟩
  refine (waitNotBusy_emits.mono ?_ fun _ _ held => held).andThen ?_
  · intro polls busy
    have shape := cutOff more (after ++ polls) readsMore (settled.1.append busy.reads)
    exact .inr (by simpa [List.append_assoc] using shape)
  rintro n last ⟨final, lastAnswered, rfl⟩
  refine .pure ?_
  have shape : Commanded uIoBase ideCmd { mBDrivehead := selectDrive driveId }
      (Taken uIoBase (blockWords ideCmdData 0 ideSectorSize) (Settled uIoBase)) _ :=
    commanded_taken reads answered clear (readsAsked.append readsMore)
      (settled.append lastAnswered.reads)
  simpa [List.append_assoc] using shape

end Cromwell.Ide
