import Cromwell.Ide.Reading
import Mathlib.Data.List.DropRight

/-!
# Sectors that were read

A sector read that returns zero has stored the words of its last attempt. Where an
attempt before it had taken the words as well and was then told of an error, the
drive was not asked for the sector again, and what is stored is what it sent
after the sector. A CD or DVD drive says itself how much of the sector it sends,
and where it is first asked for its error information, that goes to a buffer of
twelve bytes however long it is.
-/

namespace Cromwell.Ide

open Cromwell.Std Cromwell.Std.Program

variable {σ : Type} {bus : PortBus σ} {fuel : Nat} {uIoBase : UInt16}

/-! ## The attempts -/

/-- The access reads the status register, as is done at the end of a block. -/
def endsBlock (base : UInt16) : Access → Bool
  | .inByte wAds _ => decide (wAds = ideRegStatus base)
  | _ => false

/-- The access may be part of the data phase: it reads anything but the upper half of the
byte count, which is read just before. -/
def inPhase (base : UInt16) : Access → Bool
  | .inByte wAds _ => decide (wAds ≠ ideRegCylinderMsb base)
  | .inWord _ _ => true
  | _ => false

/-- One block: polls, its words, and the two reads that end it. -/
def Block (base : UInt16) (polls : List Access) (words : List UInt16) (status last : Byte) :
    List Access :=
  polls ++ (words.map (.inWord (ideRegData base)) ++
    [.inByte (ideRegStatus base) status, .inByte (ideRegAltstatus base) last])

/-- The accesses of a loop of attempts, by whether the first block ended in an error. -/
inductive Attempts (base : UInt16) (memory : Memory) (buf size : Nat) :
    Memory → List Access → Prop where
  | once {polls : List Access} {words : List UInt16} (status last : Byte)
      (polled : ∀ access ∈ polls, IsPoll base access) (whole : words.length = size / 2)
      (fine : last &&& 0x01 = 0) :
      Attempts base memory buf size (memory.store buf (blockBytes words))
        (Block base polls words status last)
  | again {polls later : List Access} {words : List UInt16} (status last : Byte)
      (after : Memory) (polled : ∀ access ∈ polls, IsPoll base access)
      (whole : words.length = size / 2) (failed : last &&& 0x01 ≠ 0)
      (phase : ∀ access ∈ later, inPhase base access = true)
      (ended : 0 < later.countP (endsBlock base)) :
      Attempts base memory buf size after (Block base polls words status last ++ later)

/-- How far a loop of attempts has come while it goes on. -/
inductive Retrying (base : UInt16) (memory : Memory) (size : Nat) :
    Memory → List Access → Prop where
  | unready {polls : List Access} (polled : ∀ access ∈ polls, IsPoll base access) :
      Retrying base memory size memory polls
  | failed {polls later : List Access} {words : List UInt16} (status last : Byte)
      (current : Memory) (polled : ∀ access ∈ polls, IsPoll base access)
      (whole : words.length = size / 2) (failed : last &&& 0x01 ≠ 0)
      (phase : ∀ access ∈ later, inPhase base access = true) :
      Retrying base memory size current (Block base polls words status last ++ later)

theorem polls_append {first second : List Access}
    (polledFirst : ∀ access ∈ first, IsPoll uIoBase access)
    (polledSecond : ∀ access ∈ second, IsPoll uIoBase access) :
    ∀ access ∈ first ++ second, IsPoll uIoBase access :=
  fun access member => (List.mem_append.mp member).elim (polledFirst access) (polledSecond access)

section Parts

variable {polls : List Access}

theorem inPhase_append {first second : List Access}
    (phaseFirst : ∀ access ∈ first, inPhase uIoBase access = true)
    (phaseSecond : ∀ access ∈ second, inPhase uIoBase access = true) :
    ∀ access ∈ first ++ second, inPhase uIoBase access = true :=
  fun access member => (List.mem_append.mp member).elim (phaseFirst access) (phaseSecond access)

theorem inPhase_of_polls (polled : ∀ access ∈ polls, IsPoll uIoBase access) :
    ∀ access ∈ polls, inPhase uIoBase access = true := by
  intro access member
  obtain ⟨status, rfl⟩ := polled access member
  simp [inPhase, ideRegAltstatus, ideRegCylinderMsb, ideRegExtendedOffset, UInt16.add_assoc]

theorem inPhase_block (polled : ∀ access ∈ polls, IsPoll uIoBase access) (words : List UInt16)
    (status last : Byte) :
    ∀ access ∈ Block uIoBase polls words status last, inPhase uIoBase access = true := by
  refine inPhase_append (inPhase_of_polls polled) (inPhase_append ?_ ?_)
  · intro access member
    obtain ⟨word, -, rfl⟩ := List.mem_map.mp member
    rfl
  · intro access member
    simp only [List.mem_cons, List.not_mem_nil, or_false] at member
    rcases member with rfl | rfl
    · simp [inPhase, ideRegStatus, ideRegCylinderMsb]
    · simp [inPhase, ideRegAltstatus, ideRegCylinderMsb, ideRegExtendedOffset, UInt16.add_assoc]

theorem endsBlock_of_polls (polled : ∀ access ∈ polls, IsPoll uIoBase access) :
    polls.countP (endsBlock uIoBase) = 0 := by
  refine List.countP_eq_zero.mpr ?_
  intro access member
  obtain ⟨status, rfl⟩ := polled access member
  simp [endsBlock, ideRegAltstatus, ideRegStatus, ideRegExtendedOffset, UInt16.add_assoc]

theorem endsBlock_of_words (words : List UInt16) :
    (words.map (.inWord (ideRegData uIoBase))).countP (endsBlock uIoBase) = 0 := by
  refine List.countP_eq_zero.mpr ?_
  intro access member
  obtain ⟨word, -, rfl⟩ := List.mem_map.mp member
  exact Bool.false_ne_true

/-- A block ends once. -/
theorem endsBlock_block (polled : ∀ access ∈ polls, IsPoll uIoBase access)
    (words : List UInt16) (status last : Byte) :
    (Block uIoBase polls words status last).countP (endsBlock uIoBase) = 1 := by
  have ending : [Access.inByte (ideRegStatus uIoBase) status,
      .inByte (ideRegAltstatus uIoBase) last].countP (endsBlock uIoBase) = 1 := by
    simp [endsBlock, ideRegAltstatus, ideRegStatus, ideRegExtendedOffset, UInt16.add_assoc]
  rw [Block, List.countP_append, List.countP_append, endsBlock_of_polls polled,
    endsBlock_of_words, ending]

theorem wordsRead_block {polls : List Access}
    (polled : ∀ access ∈ polls, IsPoll uIoBase access) (words : List UInt16) (status last : Byte) :
    wordsRead uIoBase (Block uIoBase polls words status last) = words := by
  have wordless : Wordless polls := fun access member => (polled access member).isWordless
  have ends : Wordless [.inByte (ideRegStatus uIoBase) status,
      .inByte (ideRegAltstatus uIoBase) last] := by
    intro access member
    simp only [List.mem_cons, List.not_mem_nil, or_false] at member
    rcases member with rfl | rfl
    all_goals trivial
  rw [Block, wordsRead_append, wordsRead_append, wordless.wordsRead, wordsRead_words,
    ends.wordsRead]
  simp

end Parts

section Retrying

variable {memory current : Memory} {buf size : Nat} {trace polls : List Access}
  {words : List UInt16} {status last : Byte}

theorem Block.append (first : List Access) (polls : List Access) (words : List UInt16)
    (status last : Byte) : first ++ Block uIoBase polls words status last =
      Block uIoBase (first ++ polls) words status last := by
  rw [Block, Block, List.append_assoc]

theorem Retrying.wait (retrying : Retrying uIoBase memory size current trace)
    (polled : ∀ access ∈ polls, IsPoll uIoBase access) :
    Retrying uIoBase memory size current (trace ++ polls) := by
  cases retrying with
  | unready polledBefore => exact .unready (polls_append polledBefore polled)
  | failed first last _ polledBefore whole failed phase =>
      rw [List.append_assoc]
      exact .failed first last current polledBefore whole failed
        (inPhase_append phase (inPhase_of_polls polled))

/-- A block that ends in an error. -/
theorem Retrying.fail (retrying : Retrying uIoBase memory size current trace)
    (polled : ∀ access ∈ polls, IsPoll uIoBase access) (whole : words.length = size / 2)
    (failed : last &&& 0x01 ≠ 0) (after : Memory) :
    Retrying uIoBase memory size after (trace ++ Block uIoBase polls words status last) := by
  cases retrying with
  | unready polledBefore =>
      have shape : Retrying uIoBase memory size after
          (Block uIoBase (trace ++ polls) words status last ++ []) :=
        .failed status last after (polls_append polledBefore polled) whole failed
          fun _ member => absurd member List.not_mem_nil
      rwa [List.append_nil, ← Block.append] at shape
  | failed first lastBefore _ polledBefore wholeBefore failedBefore phase =>
      rw [List.append_assoc]
      exact .failed first lastBefore after polledBefore wholeBefore failedBefore
        (inPhase_append phase (inPhase_block polled words status last))

/-- A block that ends without one. -/
theorem Retrying.finish (retrying : Retrying uIoBase memory size current trace)
    (polled : ∀ access ∈ polls, IsPoll uIoBase access) (whole : words.length = size / 2)
    (fine : last &&& 0x01 = 0) :
    Attempts uIoBase memory buf size (current.store buf (blockBytes words))
      (trace ++ Block uIoBase polls words status last) := by
  cases retrying with
  | unready polledBefore =>
      rw [Block.append]
      exact .once status last (polls_append polledBefore polled) whole fine
  | failed first lastBefore _ polledBefore wholeBefore failedBefore phase =>
      rw [List.append_assoc]
      refine .again first lastBefore _ polledBefore wholeBefore failedBefore
        (inPhase_append phase (inPhase_block polled words status last)) ?_
      rw [List.countP_append, endsBlock_block polled]
      exact Nat.succ_pos _

end Retrying

/-- The loop that reads until it succeeds. -/
theorem readDataRetry_emits (memory : Memory) (buf size : Nat) :
    Emits (readDataRetry bus fuel uIoBase memory buf size) (fun _ => True)
      (Attempts uIoBase memory buf size) := by
  refine Emits.loop (Retrying uIoBase memory size) (fun _ _ _ => trivial) ?_ fuel
    (.unready fun _ member => absurd member List.not_mem_nil)
  intro current emitted retrying
  refine (readData_emits current buf size).andThen ?_
  rintro ⟨status, after⟩ trace block
  cases block with
  | notReady polled =>
      refine .ite (fun zero => absurd zero Nat.one_ne_zero) fun _ => .pure ?_
      rw [List.append_nil]
      exact retrying.wait polled
  | read first last polled ready whole =>
      by_cases fine : last &&& 0x01 = 0
      · have zero : (if last &&& 0x01 ≠ 0 then 2 else 0) = 0 := if_neg (not_not.mpr fine)
        refine .ite (fun _ => .pure ?_) fun nonzero => absurd zero nonzero
        rw [List.append_nil]
        exact retrying.finish polled whole fine
      · have two : (if last &&& 0x01 ≠ 0 then 2 else 0) ≠ 0 := by
          rw [if_pos fine]
          exact nofun
        refine .ite (fun zero => absurd zero two) fun _ => .pure ?_
        rw [List.append_nil]
        exact retrying.fail polled whole fine _

/-! ## Up to the data -/

/-- The byte count a drive gave. -/
def countOf (lsb msb : Byte) : Nat := lsb.toNat ||| msb.toNat <<< 8

/-- What was emitted before the data phase. -/
inductive Started (base : UInt16) : (atapi : Bool) → Except Nat Nat → List Access → Prop where
  | ended {atapi : Bool} {status : Nat} {trace : List Access} (nonzero : status ≠ 0) :
      Started base atapi (.error status) trace
  | ata {front polls : List Access} (code : Byte) (wordless : Wordless front)
      (polled : ∀ access ∈ polls, IsPoll base access) :
      Started base false (.ok ideSectorSize)
        (front ++ .outByte (ideRegCommand base) code :: polls)
  | atapi (front : List Access) (lsb msb : Byte) :
      Started base true (.ok (if countOf lsb msb > 2048 then 2048 else countOf lsb msb))
        (front ++ [.inByte (ideRegCylinderLsb base) lsb, .inByte (ideRegCylinderMsb base) msb])

theorem readByteCount_emits {cut : List Access → Prop} :
    Emits (readByteCount bus uIoBase) cut fun count trace => ∃ lsb msb, count = countOf lsb msb ∧
      trace = [.inByte (ideRegCylinderLsb uIoBase) lsb,
        .inByte (ideRegCylinderMsb uIoBase) msb] := by
  refine (ioInputByte_emits _).andThen ?_
  rintro lsb _ rfl
  refine (ioInputByte_emits _).andThen ?_
  rintro msb _ rfl
  exact .pure ⟨lsb, msb, rfl, rfl⟩

section Start

variable {tsaHarddiskInfo : Int → DriveInfo} {nDriveIndex : Int}

/-- Error information goes to `pba` as it arrives, whatever the length of the buffer. -/
theorem additionalSenseCode_emits (memory : Memory) (pba nLengthMaxReturn : Nat) :
    Emits (bootIdeAtapiAdditionalSenseCode bus fuel tsaHarddiskInfo nDriveIndex memory pba
      nLengthMaxReturn) (fun _ => True) fun result trace => result.2 = memory.store pba
        (blockBytes (wordsRead (tsaHarddiskInfo nDriveIndex).mFwPortBase trace)) := by
  have nothing : ∀ {trace : List Access}, Wordless trace → memory = memory.store pba
      (blockBytes (wordsRead (tsaHarddiskInfo nDriveIndex).mFwPortBase trace)) := by
    intro trace wordless
    rw [wordless.wordsRead]
    exact (Memory.store_nil memory).symm
  refine .ite (fun _ => .pure (nothing wordless_nil)) fun _ => ?_
  refine (issueAtapiPacketCommandAndPacket_wordless _ _ _).emits.andThen ?_
  intro _ issued (wordless : Wordless issued)
  refine .ite (fun _ => .pure (nothing (wordless.append wordless_nil))) fun _ => ?_
  refine readByteCount_emits.andThen ?_
  rintro _ _ ⟨lsb, msb, rfl, rfl⟩
  refine (readData_emits _ _ _).andThen ?_
  rintro ⟨status, after⟩ trace block
  have counted : Wordless
      [.inByte (ideRegCylinderLsb (tsaHarddiskInfo nDriveIndex).mFwPortBase) lsb,
      .inByte (ideRegCylinderMsb (tsaHarddiskInfo nDriveIndex).mFwPortBase) msb] := by
    intro access member
    simp only [List.mem_cons, List.not_mem_nil, or_false] at member
    rcases member with rfl | rfl
    all_goals trivial
  refine .pure ?_
  rw [List.append_nil, wordsRead_append, wordless.wordsRead, wordsRead_append, counted.wordsRead]
  cases block with
  | notReady polled =>
      have quiet : Wordless trace := fun access member => (polled access member).isWordless
      exact nothing quiet
  | @read asked words first last polled ready whole =>
      have read := wordsRead_block polled words first last
      rw [Block] at read
      rw [read]
      rfl

theorem clearAttention_emits (ba : Memory) :
    Emits (clearAttention bus fuel tsaHarddiskInfo nDriveIndex ba) (fun _ => True)
      fun _ _ => True := by
  have free : ∀ wAds, Emits (ioInputByte bus wAds) (fun _ => True) fun _ _ => True :=
    fun wAds => (ioInputByte_reads wAds).emits.mono (fun _ held => held) fun _ _ _ => trivial
  refine (free _).andThen fun _ _ _ => (free _).andThen fun _ _ _ => ?_
  refine .ite (fun _ => (free _).andThen fun _ _ _ => ?_) fun _ => .pure trivial
  refine .ite (fun _ => ?_) fun _ => .pure trivial
  exact (additionalSenseCode_emits _ _ _).andThen fun _ _ _ => .pure trivial

theorem startAtapiSector_emits (ba : Memory) (block : UInt32) (nBytes : Int32) :
    Emits (startAtapiSector bus fuel tsaHarddiskInfo nDriveIndex ba block nBytes) (fun _ => True)
      (Started (tsaHarddiskInfo nDriveIndex).mFwPortBase true) := by
  refine (clearAttention_emits ba).andThen fun _ cleared _ => ?_
  refine waitNotBusy_wordless.emits.andThen fun _ waited _ => ?_
  refine .ite (fun _ => .pure (.ended Nat.one_ne_zero)) fun _ => ?_
  refine (issueAtapiPacketCommandAndPacket_wordless _ _ _).emits.andThen fun _ issued _ => ?_
  refine .ite (fun _ => .pure (.ended Nat.one_ne_zero)) fun _ => ?_
  refine readByteCount_emits.andThen ?_
  rintro _ _ ⟨lsb, msb, rfl, rfl⟩
  refine .pure ?_
  have shape : Started (tsaHarddiskInfo nDriveIndex).mFwPortBase true _ _ :=
    .atapi (cleared ++ (waited ++ issued)) lsb msb
  simpa [List.append_assoc] using shape

theorem startAtaSector_emits (info : DriveInfo) (block : UInt32) :
    Emits (startAtaSector bus fuel info nDriveIndex block) (fun _ => True) fun start trace =>
      ∀ before, Wordless before → Started info.mFwPortBase false start (before ++ trace) := by
  unfold startAtaSector
  generalize sectorCommand info nDriveIndex block .readExt .readMultiRetry = addressed
  obtain ⟨ideReadCommand, tsicp⟩ := addressed
  refine (ioOutputByte_wordless _ _).emits.andThen ?_
  intro _ control (wordlessControl : Wordless control)
  have issued : Emits (bootIdeIssueAtaCommand bus fuel info.mFwPortBase ideReadCommand tsicp) _ _ :=
    (issueAtaCommand_emits ideReadCommand tsicp).and (issueAtaCommand_wordless _ _)
  refine (issued.mono (fun _ _ => trivial) fun _ _ held => held).andThen ?_
  rintro n trace ⟨⟨status, ⟨waited, answer, -, answered, rfl⟩, -⟩, wordless⟩
  refine .ite (fun _ => ?_) fun _ => .pure ?_
  · refine (ioInputByte_emits _).andThen fun _ _ _ => .pure fun _ _ => .ended Nat.one_ne_zero
  · intro before wordlessBefore
    have registers : taskFileWrites info.mFwPortBase ideReadCommand tsicp =
        (taskFileWrites info.mFwPortBase ideReadCommand tsicp).take 9 ++
          [.outByte (ideRegCommand info.mFwPortBase) ideReadCommand.code] := rfl
    have wordlessFront : Wordless (before ++ (control ++ (waited ++
        (taskFileWrites info.mFwPortBase ideReadCommand tsicp).take 9))) := by
      refine wordlessBefore.append (wordlessControl.append (Wordless.append ?_ ?_))
      · exact fun access member => wordless access (List.mem_append_left _ member)
      · exact fun access member =>
          taskFileWrites_wordless ideReadCommand tsicp access (List.mem_of_mem_take member)
    have shape : Started info.mFwPortBase false _ _ :=
      .ata ideReadCommand.code wordlessFront answered.polls
    rw [registers]
    simpa [List.append_assoc] using shape

theorem startSector_emits (stack : Memory) (block : UInt32) (nBytes : Int32) :
    Emits (startSector bus fuel tsaHarddiskInfo stack nDriveIndex block nBytes) (fun _ => True)
      (Started (tsaHarddiskInfo nDriveIndex).mFwPortBase
        (tsaHarddiskInfo nDriveIndex).mFAtapi) := by
  refine .ite (fun _ => .pure (.ended (by decide))) fun _ => ?_
  refine (ioOutputByte_wordless _ _).emits.andThen ?_
  intro _ selected (wordless : Wordless selected)
  refine .ite (fun _ => .pure (.ended Nat.one_ne_zero)) fun _ =>
    .ite (fun atapi => ?_) fun ata => ?_
  · refine (startAtapiSector_emits _ _ _).mono (fun _ _ => trivial) ?_
    intro start trace started
    rw [atapi]
    cases started with
    | ended nonzero => exact .ended nonzero
    | atapi front lsb msb =>
        rw [← List.append_assoc]
        exact .atapi (selected ++ front) lsb msb
  · refine (startAtaSector_emits _ _).mono (fun _ _ => trivial) ?_
    intro start trace started
    have off : (tsaHarddiskInfo nDriveIndex).mFAtapi = false := by simpa using ata
    rw [off]
    exact started selected wordless

end Start

/-! ## The data phase of a trace -/

/-- The reads at the end of a trace that belong to the data of the last command. -/
def dataPhase (base : UInt16) (trace : List Access) : List Access :=
  trace.rtakeWhile (inPhase base)

/-- Everything before them. -/
def beforePhase (base : UInt16) (trace : List Access) : List Access :=
  trace.rdropWhile (inPhase base)

/-- The byte count the drive gave before its data. -/
def byteCount (base : UInt16) (trace : List Access) : Nat :=
  match (beforePhase base trace).reverse with
  | .inByte _ msb :: .inByte _ lsb :: _ => countOf lsb msb
  | _ => 0

section Phase

variable {front phase : List Access} {border : Access}

theorem dataPhase_append (outside : inPhase uIoBase border = false)
    (inside : ∀ access ∈ phase, inPhase uIoBase access = true) :
    dataPhase uIoBase (front ++ border :: phase) = phase := by
  have reversed : ∀ access ∈ phase.reverse, inPhase uIoBase access = true :=
    fun access member => inside access (List.mem_reverse.mp member)
  simp [dataPhase, List.rtakeWhile, List.takeWhile_append_of_pos reversed, outside]

theorem beforePhase_append (outside : inPhase uIoBase border = false)
    (inside : ∀ access ∈ phase, inPhase uIoBase access = true) :
    beforePhase uIoBase (front ++ border :: phase) = front ++ [border] := by
  have reversed : ∀ access ∈ phase.reverse, inPhase uIoBase access = true :=
    fun access member => inside access (List.mem_reverse.mp member)
  simp [beforePhase, List.rdropWhile, List.dropWhile_append_of_pos reversed, outside]

end Phase

/-! ## Complete reads -/

/-- The length of a sector. -/
def DriveInfo.sectorSize (info : DriveInfo) : Nat := if info.mFAtapi then 2048 else 512

/-- The buffer holds exactly `n` bytes of the sector from `offset` on, as they came in the
one block the drive sent for it, and nothing else was written: neither behind the buffer
nor, by the words that came before, behind the packet buffer of twelve bytes. -/
structure Complete (info : DriveInfo) (offset n pbBuffer : Nat) (memory after : Memory)
    (trace : List Access) : Prop where
  once : (dataPhase info.mFwPortBase trace).countP (endsBlock info.mFwPortBase) = 1
  whole : 2 * (wordsRead info.mFwPortBase (dataPhase info.mFwPortBase trace)).length =
    info.sectorSize
  inside : offset + n ≤ info.sectorSize
  stored : after = memory.store pbBuffer
    (((blockBytes (wordsRead info.mFwPortBase (dataPhase info.mFwPortBase trace))).drop
      offset).take n)
  packet : 2 * (wordsRead info.mFwPortBase (beforePhase info.mFwPortBase trace)).length ≤ 12

/-- When the drive is done with its first block it reports no error. -/
def FirstBlockFine (base : UInt16) (phase : List Access) : Prop :=
  ∀ before status last later,
    phase = before ++ .inByte (ideRegStatus base) status ::
      .inByte (ideRegAltstatus base) last :: later →
    (∀ access ∈ before, endsBlock base access = false) → last &&& 0x01 = 0

/-- The drive reports no error with its first block. One for CDs and DVDs has the whole
sector ready, which is read from its start, and gave no more error information before
than fits its buffer. -/
structure Sound (info : DriveInfo) (offset : Nat) (trace : List Access) : Prop where
  fine : FirstBlockFine info.mFwPortBase (dataPhase info.mFwPortBase trace)
  start : info.mFAtapi = true → offset = 0
  ready : info.mFAtapi = true → 2048 ≤ byteCount info.mFwPortBase trace
  sense : info.mFAtapi = true →
    2 * (wordsRead info.mFwPortBase (beforePhase info.mFwPortBase trace)).length ≤ 12

/-- A read as the callers ask for it: part of a sector of a hard disk, or all 2048 bytes of
one of a CD or DVD. -/
structure Requested (info : DriveInfo) (offset n : Nat) : Prop where
  ata : info.mFAtapi = false → offset + n ≤ 512
  atapi : info.mFAtapi = true → n = 2048

section Reads

variable {memory after : Memory} {buf size offset n : Nat} {phase trace : List Access}

theorem Attempts.after_polls {polls : List Access}
    (attempts : Attempts uIoBase memory buf size after trace)
    (polled : ∀ access ∈ polls, IsPoll uIoBase access) :
    Attempts uIoBase memory buf size after (polls ++ trace) := by
  cases attempts with
  | once status last polledBlock whole fine =>
      rw [Block.append]
      exact .once status last (polls_append polled polledBlock) whole fine
  | again status last after polledBlock whole failed phase ended =>
      rw [← List.append_assoc, Block.append]
      exact .again status last after (polls_append polled polledBlock) whole failed phase ended

theorem Attempts.reads (attempts : Attempts uIoBase memory buf size after trace) :
    ∀ access ∈ trace, inPhase uIoBase access = true := by
  cases attempts with
  | once status last polled whole fine => exact inPhase_block polled _ status last
  | again status last after polled whole failed phase ended =>
      exact inPhase_append (inPhase_block polled _ status last) phase

theorem ends_status (status : Byte) :
    endsBlock uIoBase (.inByte (ideRegStatus uIoBase) status) = true := by
  simp [endsBlock]

theorem front_open {polls : List Access} (polled : ∀ access ∈ polls, IsPoll uIoBase access)
    (words : List UInt16) : ∀ access ∈ polls ++ words.map (.inWord (ideRegData uIoBase)),
      endsBlock uIoBase access = false := by
  intro access member
  have none : (polls ++ words.map (Access.inWord (ideRegData uIoBase))).countP (endsBlock uIoBase) =
      0 := by
    rw [List.countP_append, endsBlock_of_polls polled, endsBlock_of_words]
  simpa using List.countP_eq_zero.mp none access member

/-- The first block ends as its last answer says. -/
theorem firstBlockFine_iff {polls : List Access}
    (polled : ∀ access ∈ polls, IsPoll uIoBase access) (words : List UInt16) (status last : Byte)
    (later : List Access) :
    FirstBlockFine uIoBase (Block uIoBase polls words status last ++ later) ↔
      last &&& 0x01 = 0 := by
  have shape : Block uIoBase polls words status last ++ later =
      (polls ++ words.map (Access.inWord (ideRegData uIoBase))) ++
        .inByte (ideRegStatus uIoBase) status ::
          .inByte (ideRegAltstatus uIoBase) last :: later := by simp [Block]
  have opened := front_open polled words
  constructor
  · exact fun fine => fine _ status last later shape opened
  · intro clear before status' last' later' same open'
    rw [shape] at same
    obtain ⟨-, -, rest⟩ := first_unique_of (fun access => endsBlock uIoBase access = true) same
      (ends_status status) (ends_status status')
      (fun other member => by simp [opened other member])
      fun other member => by simp [open' other member]
    injection rest with equal
    injection equal with _ equal
    rwa [← equal]

/-- A loop of attempts took one block and stored it, or began with one that failed. -/
theorem Attempts.outcome (attempts : Attempts uIoBase memory buf size after phase) :
    (FirstBlockFine uIoBase phase ∧ phase.countP (endsBlock uIoBase) = 1 ∧
      (wordsRead uIoBase phase).length = size / 2 ∧
        after = memory.store buf (blockBytes (wordsRead uIoBase phase))) ∨
      ¬FirstBlockFine uIoBase phase ∧ phase.countP (endsBlock uIoBase) ≠ 1 := by
  cases attempts with
  | @once polls words status last polled whole fine =>
      refine .inl ⟨?_, endsBlock_block polled words status last, ?_, ?_⟩
      · have first := (firstBlockFine_iff polled words status last []).mpr fine
        rwa [List.append_nil] at first
      · rw [wordsRead_block polled, whole]
      · rw [wordsRead_block polled]
  | @again polls later words status last after polled whole failed phase ended =>
      refine .inr ⟨fun fine => failed ((firstBlockFine_iff polled words status last later).mp fine),
        ?_⟩
      rw [List.countP_append, endsBlock_block polled]
      omega

/-- What the two parts of a read say about its whole trace. -/
theorem Started.phases {info : DriveInfo} {first : List Access}
    (started : Started info.mFwPortBase info.mFAtapi (.ok size) first)
    (attempts : Attempts info.mFwPortBase memory buf size after trace) :
    Attempts info.mFwPortBase memory buf size after
      (dataPhase info.mFwPortBase (first ++ trace)) ∧
    (info.mFAtapi = false → size = 512 ∧
      wordsRead info.mFwPortBase (beforePhase info.mFwPortBase (first ++ trace)) = []) ∧
    (info.mFAtapi = true → size = (if byteCount info.mFwPortBase (first ++ trace) > 2048 then 2048
      else byteCount info.mFwPortBase (first ++ trace))) := by
  generalize atapi : info.mFAtapi = kind at started ⊢
  cases started with
  | @ata front polls code wordless polled =>
      have outside : inPhase info.mFwPortBase
          (.outByte (ideRegCommand info.mFwPortBase) code) = false := rfl
      have inside := inPhase_append (inPhase_of_polls polled) attempts.reads
      rw [List.append_assoc, List.cons_append, dataPhase_append outside inside,
        beforePhase_append outside inside]
      refine ⟨attempts.after_polls polled, fun _ => ⟨rfl, ?_⟩, nofun⟩
      have quiet : Wordless (front ++ [.outByte (ideRegCommand info.mFwPortBase) code]) := by
        refine wordless.append fun access member => ?_
        rw [List.mem_singleton.mp member]
        trivial
      exact quiet.wordsRead
  | atapi front lsb msb =>
      have outside : inPhase info.mFwPortBase
          (.inByte (ideRegCylinderMsb info.mFwPortBase) msb) = false := by
        simp [inPhase]
      have shape : front ++ [Access.inByte (ideRegCylinderLsb info.mFwPortBase) lsb,
          .inByte (ideRegCylinderMsb info.mFwPortBase) msb] ++ trace =
          (front ++ [.inByte (ideRegCylinderLsb info.mFwPortBase) lsb]) ++
            .inByte (ideRegCylinderMsb info.mFwPortBase) msb :: trace := by simp
      rw [shape, byteCount, dataPhase_append outside attempts.reads,
        beforePhase_append outside attempts.reads]
      refine ⟨attempts, nofun, fun _ => ?_⟩
      simp

/-- Storing a part of a block that was stored elsewhere first. -/
theorem memcpy_store (stack : Memory) (pbBuffer : Nat) {bytes : List Byte}
    (inside : offset + n ≤ bytes.length) :
    memory.memcpy pbBuffer (stack.store 0 bytes) offset n =
      memory.store pbBuffer ((bytes.drop offset).take n) := by
  have length : ((bytes.drop offset).take n).length = n := by
    rw [List.length_take, List.length_drop]
    omega
  funext x
  by_cases within : pbBuffer ≤ x ∧ x < pbBuffer + n
  · obtain ⟨lower, upper⟩ := within
    have below : x - pbBuffer < ((bytes.drop offset).take n).length := by omega
    rw [Memory.memcpy_inside _ _ lower upper, Memory.store_inside _ lower below,
      Memory.store_inside _ (Nat.zero_le _) (by omega)]
    simp
  · have outside : x < pbBuffer ∨ pbBuffer + n ≤ x := by omega
    rw [Memory.memcpy_outside _ _ outside, Memory.store_outside _ (by rwa [length])]

end Reads

section SectorRead

variable {tsaHarddiskInfo : Int → DriveInfo} {nDriveIndex : Int}

/-- A read that took one block is complete exactly if that was the sector. -/
theorem complete_iff_sound {info : DriveInfo} {offset n pbBuffer size : Nat}
    {memory after middle : Memory} {buf : Nat} {trace first rest : List Access}
    (requested : Requested info offset n)
    (started : Started info.mFwPortBase info.mFAtapi (.ok size) first)
    (attempts : Attempts info.mFwPortBase middle buf size after rest)
    (whole : trace = first ++ rest) {final : Memory}
    (stored : 2 * (size / 2) = info.sectorSize → offset + n ≤ info.sectorSize →
      after = middle.store buf
        (blockBytes (wordsRead info.mFwPortBase (dataPhase info.mFwPortBase trace))) →
      (wordsRead info.mFwPortBase (dataPhase info.mFwPortBase trace)).length = size / 2 →
      final = memory.store pbBuffer (((blockBytes
        (wordsRead info.mFwPortBase (dataPhase info.mFwPortBase trace))).drop offset).take n)) :
    Complete info offset n pbBuffer memory final trace ↔ Sound info offset trace := by
  obtain ⟨phase, ata, atapi⟩ := started.phases attempts
  rw [← whole] at phase ata atapi
  cases phase.outcome with
  | inr failed =>
      exact iff_of_false (fun complete => failed.2 complete.once) fun sound => failed.1 sound.fine
  | inl taken =>
      obtain ⟨fine, once, length, store⟩ := taken
      cases kind : info.mFAtapi with
      | false =>
          obtain ⟨sized, quiet⟩ := ata kind
          have sectorSize : info.sectorSize = 512 := by simp [DriveInfo.sectorSize, kind]
          have inside := requested.ata kind
          refine iff_of_true ?_ ⟨fine, ?_, ?_, ?_⟩
          · refine ⟨once, by omega, by omega, stored (by omega) (by omega) store length, ?_⟩
            rw [quiet]
            exact Nat.zero_le _
          all_goals simp [kind]
      | true =>
          have sized := atapi kind
          have sectorSize : info.sectorSize = 2048 := by simp [DriveInfo.sectorSize, kind]
          have all := requested.atapi kind
          constructor
          · intro complete
            have counted := complete.whole
            have inside := complete.inside
            refine ⟨fine, fun _ => by omega, fun _ => ?_, fun _ => complete.packet⟩
            split at sized
            · omega
            · omega
          · intro sound
            have start := sound.start kind
            have ready := sound.ready kind
            have full : size = 2048 := by
              split at sized
              · exact sized
              · omega
            exact ⟨once, by omega, by omega, stored (by omega) (by omega) store length,
              sound.sense kind⟩

theorem toNat_ofNat (value : Nat) (bounded : value ≤ 512) :
    (Int32.ofNat value).toUInt32.toNat = value := by
  have small : value < 2 ^ 32 := by omega
  exact UInt32.toNat_ofNat_of_lt small

/-- A read that needs no buffer of its own is one of the whole sector. -/
theorem Requested.whole {info : DriveInfo} {offset n : Nat} (requested : Requested info offset n)
    (direct : ¬(info.mFAtapi = false ∧ Int32.ofNat n ≠ 512))
    (inside : offset + n ≤ info.sectorSize) : offset = 0 ∧ n = info.sectorSize := by
  have full : n = info.sectorSize := by
    cases kind : info.mFAtapi with
    | false =>
        have bounded := requested.ata kind
        have same : Int32.ofNat n = Int32.ofNat 512 := not_not.mp fun other => direct ⟨kind, other⟩
        have equal : n = 512 := by
          rw [← toNat_ofNat n (by omega), same]
          rfl
        simp [DriveInfo.sectorSize, kind, equal]
    | true => simp [DriveInfo.sectorSize, kind, requested.atapi kind]
  exact ⟨by omega, full⟩

/-- For every sequence of answers and every read a caller asks for: where zero is
returned, the buffer holds the bytes of the sector as the drive sent them, and nothing
else was written, exactly if the drive took the sector through in its first block. -/
theorem sectorRead_complete_iff {offset n : Nat}
    (requested : Requested (tsaHarddiskInfo nDriveIndex) offset n) (stack memory : Memory)
    (pbBuffer : Nat) (block : UInt32) :
    Emits (bootIdeReadSector bus fuel tsaHarddiskInfo stack nDriveIndex memory pbBuffer block
      (Int32.ofNat offset) (Int32.ofNat n)) (fun _ => True) fun outcome trace =>
        outcome.1 = 0 →
          (Complete (tsaHarddiskInfo nDriveIndex) offset n pbBuffer memory outcome.2 trace ↔
            Sound (tsaHarddiskInfo nDriveIndex) offset trace) := by
  refine (startSector_emits stack block _).andThen ?_
  intro start first started
  cases start with
  | error status =>
      generalize (tsaHarddiskInfo nDriveIndex).mFAtapi = atapi at started
      cases started with
      | ended nonzero => exact .pure fun zero => absurd zero nonzero
  | ok size =>
      refine .ite (fun part => ?_) fun direct => ?_
      · refine (readDataRetry_emits stack 0 size).andThen ?_
        intro bounce rest attempts
        have ata := requested.ata part.1
        refine .pure fun _ => ?_
        refine complete_iff_sound requested started attempts (by simp) ?_
        intro whole inside store length
        rw [toNat_ofNat offset (by omega), toNat_ofNat n (by omega), store]
        exact memcpy_store stack pbBuffer (by rw [length_blockBytes, length]; omega)
      · refine (readDataRetry_emits memory pbBuffer size).andThen ?_
        intro after rest attempts
        refine .pure fun _ => ?_
        refine complete_iff_sound requested started attempts (by simp) ?_
        intro whole inside store length
        obtain ⟨rfl, full⟩ := requested.whole direct inside
        rw [full, List.drop_zero, List.take_of_length_le, store]
        rw [length_blockBytes, length]
        omega

end SectorRead

/-! ## A drive with nothing to send -/

/-- A drive that always asks for data to be taken, and has none. -/
def emptyBus : PortBus Unit where
  inByte _ wAds := (if wAds = ideRegAltstatus 0x170 then 0x08 else 0, ())
  inWord _ _ := (0, ())
  outByte _ _ _ := ()
  outWord _ _ _ := ()

/-- A CD or DVD drive on the second channel. -/
def discDrive : Int → DriveInfo := fun _ =>
  { mFwPortBase := 0x170
    mWCountHeads := 0
    mWCountCylinders := 0
    mWCountSectorsPerTrack := 0
    mDwCountSectorsTotal := 0
    mBLbaMode := ideDhChs
    mFDriveExists := true
    mFAtapi := true }

/-- A drive that is always ready and without an error, and counts the words it sends. -/
def countingBus : PortBus Nat where
  inByte ports _ := (0x48, ports)
  inWord ports _ := (UInt16.ofNat ports, ports + 1)
  outByte ports _ _ := ports
  outWord ports _ _ := ports

/-- No byte that is read has the bit of an error set. -/
def errorFree : Access → Bool
  | .inByte _ value => value &&& 0x01 = 0
  | _ => true

/-- A read of sector 16 from that drive. -/
@[irreducible] def countedRead : Pass (IdeState Nat) ((Nat × Memory) × IdeState Nat) :=
  bootIdeReadSector countingBus 1 largeDrive (fun _ => 0) 0 (fun _ => 0) 0x1000 16 (Int32.ofNat 0)
    (Int32.ofNat 512) { ports := 0, trace := [] }

theorem countedRead_eq :
    bootIdeReadSector countingBus 1 largeDrive (fun _ => 0) 0 (fun _ => 0) 0x1000 16
      (Int32.ofNat 0) (Int32.ofNat 512) { ports := 0, trace := [] } = countedRead := by
  delta countedRead
  rfl

/-- The whole sector is delivered. -/
theorem sectorRead_complete_iff_countingBus :
    countedRead.Ends (fun _ => False) fun outcome => outcome.1.1 = 0 ∧
      Complete (largeDrive 0) 0 512 0x1000 (fun _ => 0) outcome.1.2 outcome.2.trace := by
  have fine : countedRead.Ends (fun _ => False) fun outcome =>
      outcome.1.1 = 0 ∧ outcome.2.trace.all errorFree = true := by
    decide +kernel
  have emits : Emits (bootIdeReadSector countingBus 1 largeDrive (fun _ => 0) 0 (fun _ => 0)
      0x1000 16 (Int32.ofNat 0) (Int32.ofNat 512)) (fun _ => True) fun outcome trace =>
        outcome.1 = 0 → (Complete (largeDrive 0) 0 512 0x1000 (fun _ => 0) outcome.2 trace ↔
          Sound (largeDrive 0) 0 trace) :=
    sectorRead_complete_iff ⟨fun _ => Nat.le_refl _, fun atapi => absurd atapi (by decide)⟩ _ _ _ _
  have complete := emits.ends countedRead_eq
  generalize countedRead = read at fine complete
  cases read with
  | next state => exact fine
  | leave outcome =>
      obtain ⟨zero, free⟩ := fine
      obtain ⟨emitted, trace, complete_iff⟩ := complete
      have sent : outcome.2.trace = emitted := trace
      rw [sent] at free
      refine ⟨zero, sent ▸ (complete_iff zero).mpr
        ⟨?_, nofun, fun atapi => absurd atapi (by decide), fun atapi => absurd atapi (by decide)⟩⟩
      intro before status last later split _
      have member : Access.inByte (ideRegAltstatus (largeDrive 0).mFwPortBase) last ∈
          dataPhase (largeDrive 0).mFwPortBase emitted := by
        rw [split]
        simp
      have among := (List.rtakeWhile_suffix _ _).subset member
      simpa [errorFree] using List.all_eq_true.mp free _ among

/-- A read of sector 16 from that drive. -/
@[irreducible] def emptyRead : Pass (IdeState Unit) ((Nat × Memory) × IdeState Unit) :=
  bootIdeReadSector emptyBus 1 discDrive (fun _ => 0) 1 (fun _ => 0) 0x1000 16 (Int32.ofNat 0)
    (Int32.ofNat 2048) { ports := (), trace := [] }

/-- The read succeeds, and the buffer holds nothing of the sector. -/
theorem emptyRead_incomplete :
    ¬emptyRead.Ends (fun _ => True) fun outcome => outcome.1.1 = 0 →
      Complete (discDrive 1) 0 2048 0x1000 (fun _ => 0) outcome.1.2 outcome.2.trace := by
  have nothing : emptyRead.Ends (fun _ => False) fun outcome => outcome.1.1 = 0 ∧
      2 * (wordsRead 0x170 (dataPhase 0x170 outcome.2.trace)).length ≠ 2048 := by
    decide +kernel
  intro complete
  exact nothing.contradict complete (fun _ never => never.elim)
    fun _ found held => found.2 (held found.1).whole

end Cromwell.Ide
