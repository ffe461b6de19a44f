import Cromwell.Ide.Polling

/-!
# What reading a block emits

A block is read only once a poll found the drive asking for it to be taken; the
words then go to memory in the order they arrive, and the error bit is looked at
after the last of them.
-/

namespace Cromwell.Ide

open Cromwell.Std Cromwell.Std.Program

variable {σ : Type} {bus : PortBus σ} {fuel : Nat} {uIoBase : UInt16}

/-! ## Traces without words -/

/-- The access reads no word. -/
def IsWordless : Access → Prop
  | .inWord _ _ => False
  | _ => True

/-- No access of the trace reads a word. -/
def Wordless (trace : List Access) : Prop := ∀ access ∈ trace, IsWordless access

/-- Without a word no word is read. -/
theorem Wordless.wordsRead {trace : List Access} (wordless : Wordless trace) :
    wordsRead uIoBase trace = [] := by
  refine List.filterMap_eq_nil_iff.mpr ?_
  intro access member
  have isWordless := wordless access member
  cases access with
  | inWord _ _ => exact isWordless.elim
  | _ => rfl

theorem wordless_nil : Wordless [] := fun _ member => absurd member List.not_mem_nil

/-- Wordless accesses stay so when more of them follow. -/
theorem Wordless.append {first second : List Access} (wordlessFirst : Wordless first)
    (wordlessSecond : Wordless second) : Wordless (first ++ second) :=
  fun access member =>
    (List.mem_append.mp member).elim (wordlessFirst access) (wordlessSecond access)

/-- A poll reads a byte. -/
theorem IsPoll.isWordless {access : Access} (isPoll : IsPoll uIoBase access) :
    IsWordless access := by
  obtain ⟨status, rfl⟩ := isPoll
  trivial

/-- Words that are read in a row are those read. -/
theorem wordsRead_words (words : List UInt16) :
    wordsRead uIoBase (words.map (.inWord (ideRegData uIoBase))) = words := by
  induction words with
  | nil => rfl
  | cons word words ih => simp [wordsRead]

/-- However it fares, the program reads no word. -/
abbrev WordlessOnly {α : Type} (program : IdeProgram σ α) : Prop :=
  EmitsOnly IdeState.trace IsWordless program

/-- A byte is no word. -/
theorem ioInputByte_wordless (wAds : UInt16) : WordlessOnly (ioInputByte bus wAds) :=
  EmitsOnly.update (ε := Access) (fun _ => rfl) fun _ => trivial

/-- Waiting polls only. -/
theorem waitNotBusy_wordless : WordlessOnly (bootIdeWaitNotBusy bus fuel uIoBase) :=
  waitNotBusy_polls.weaken fun _ => IsPoll.isWordless

/-- Waiting for data polls only. -/
theorem waitDataReady_wordless : WordlessOnly (bootIdeWaitDataReady bus uIoBase) :=
  waitDataReady_polls.weaken fun _ => IsPoll.isWordless

/-- The registers of a command are bytes. -/
theorem taskFileWrites_wordless (command : IdeCommand) (params : IdeCommandParams) :
    Wordless (taskFileWrites uIoBase command params) := by
  intro access member
  simp only [taskFileWrites, List.mem_cons, List.not_mem_nil, or_false] at member
  rcases member with rfl | rfl | rfl | rfl | rfl | rfl | rfl | rfl | rfl | rfl
  all_goals trivial

/-- A command is issued without reading a word. -/
theorem issueAtaCommand_wordless (command : IdeCommand) (params : IdeCommandParams) :
    WordlessOnly (bootIdeIssueAtaCommand bus fuel uIoBase command params) := by
  have written : WordlessOnly (writeTaskFile bus uIoBase command params) := by
    refine Emits.mono (writeTaskFile_emits command params) (fun _ held => held) ?_
    rintro _ _ rfl
    exact taskFileWrites_wordless command params
  refine (ioInputByte_wordless _).bind fun _ => waitNotBusy_wordless.bind fun _ => ?_
  exact written.bind fun _ => waitNotBusy_wordless.bind fun _ => .ite (.pure _) (.pure _)

/-- Words that are written are not read. -/
theorem writeWords_wordless (words : List UInt16) :
    WordlessOnly (writeWords bus uIoBase words) := by
  refine Emits.mono (writeWords_emits words) (fun _ held => held) ?_
  rintro _ _ rfl access member
  obtain ⟨word, -, rfl⟩ := List.mem_map.mp member
  trivial

/-- Writing a block reads no word. -/
theorem writeData_wordless (memory : Memory) (buf size : Nat) :
    WordlessOnly (bootIdeWriteData bus fuel uIoBase memory buf size) := by
  refine waitDataReady_wordless.bind fun _ => (writeWords_wordless _).bind fun _ => ?_
  refine waitNotBusy_wordless.bind fun _ => .ite (.pure _) ?_
  exact (ioInputByte_wordless _).bind fun _ => .ite (.pure _) (.pure _)

/-- A byte that is written is no word. -/
theorem ioOutputByte_wordless (wAds : UInt16) (bValue : Byte) :
    WordlessOnly (ioOutputByte bus wAds bValue) :=
  EmitsOnly.update (ε := Access) (fun _ => rfl) fun _ => trivial

/-- A packet is written without reading a word. -/
theorem writeAtapiData_wordless (memory : Memory) (buf size : Nat) :
    WordlessOnly (bootIdeWriteAtapiData bus fuel uIoBase memory buf size) := by
  refine waitDataReady_wordless.bind fun _ => (ioInputByte_wordless _).bind fun _ => ?_
  refine (ioInputByte_wordless _).bind fun _ => (ioInputByte_wordless _).bind fun _ => ?_
  refine .ite (.pure _) ((writeWords_wordless _).bind fun _ => ?_)
  refine (ioInputByte_wordless _).bind fun _ => .ite (.pure _) ?_
  refine waitNotBusy_wordless.bind fun _ => .ite (.pure _) ?_
  exact (ioInputByte_wordless _).bind fun _ => .ite (.pure _) (.pure _)

/-- A packet command is issued and its packet sent without reading a word. -/
theorem issueAtapiPacketCommandAndPacket_wordless (tsaHarddiskInfo : Int → DriveInfo)
    (nDriveIndex : Int) (packet : Memory) :
    WordlessOnly (bootIdeIssueAtapiPacketCommandAndPacket bus fuel tsaHarddiskInfo nDriveIndex
      packet) := by
  refine (ioOutputByte_wordless _ _).bind fun _ => waitNotBusy_wordless.bind fun _ => ?_
  refine (issueAtaCommand_wordless _ _).bind fun _ => .ite (.pure _) ?_
  refine waitNotBusy_wordless.bind fun _ => .ite ?_ ?_
  · exact (ioInputByte_wordless _).bind fun _ => .pure _
  refine (writeAtapiData_wordless _ _ _).bind fun _ => .ite (.pure _) (.ite ?_ (.pure _))
  refine waitDataReady_wordless.bind fun _ => .ite ?_ (.pure _)
  exact (ioInputByte_wordless _).bind fun _ => (ioInputByte_wordless _).bind fun _ => .pure _

/-! ## Waiting for data -/

/-- The polls end with the drive asking for data, and then with no error. -/
def Ready (base : UInt16) (trace : List Access) : Prop :=
  ∃ polls asking settled, trace = polls ++ [.inByte (ideRegAltstatus base) asking,
    .inByte (ideRegAltstatus base) settled] ∧ Requests asking ∧ settled &&& 0x01 = 0

/-- Polling for data polls only, and ends with zero where the drive was ready. -/
theorem pollDataReady_emits {cut : List Access → Prop} (i : Nat) :
    Emits (pollDataReady bus uIoBase i) cut fun n trace =>
      (∀ access ∈ trace, IsPoll uIoBase access) ∧ (n = 0 → Ready uIoBase trace) := by
  refine Emits.of_returns ?_ (pollDataReady_returns i)
  induction i with
  | zero =>
      refine (ioInputByte_emits _).andThen ?_
      rintro b _ rfl
      have polled : ∀ access ∈ [Access.inByte (ideRegAltstatus uIoBase) b],
          IsPoll uIoBase access := fun access member => ⟨b, List.mem_singleton.mp member⟩
      exact .ite (fun _ => .pure ⟨polled, nofun⟩) fun _ => .pure ⟨polled, nofun⟩
  | succ i ih =>
      refine (ioInputByte_emits _).andThen ?_
      rintro b _ rfl
      refine .ite (fun asking => ?_) fun _ => ?_
      · refine (ioInputByte_emits _).andThen ?_
        rintro settled _ rfl
        have polled : ∀ access ∈ [Access.inByte (ideRegAltstatus uIoBase) b] ++
            [Access.inByte (ideRegAltstatus uIoBase) settled], IsPoll uIoBase access := by
          intro access member
          cases List.mem_append.mp member with
          | inl first => exact ⟨b, List.mem_singleton.mp first⟩
          | inr second => exact ⟨settled, List.mem_singleton.mp second⟩
        refine .ite (fun _ => .pure ⟨polled, nofun⟩) fun clear => .pure ⟨polled, fun _ => ?_⟩
        exact ⟨[], b, settled, rfl, asking, not_not.mp clear⟩
      · refine ih.mono (fun _ _ => trivial) ?_
        rintro n later ⟨polls, ready⟩
        refine ⟨?_, fun zero => ?_⟩
        · intro access member
          cases List.mem_append.mp member with
          | inl first => exact ⟨b, List.mem_singleton.mp first⟩
          | inr rest => exact polls access rest
        · obtain ⟨before, asking, settled, rfl, requests, clear⟩ := ready zero
          exact ⟨[.inByte (ideRegAltstatus uIoBase) b] ++ before, asking, settled, by simp,
            requests, clear⟩

/-! ## The words -/

/-- The two bytes of a word, as they are stored. -/
def wordBytes (word : UInt16) : List Byte := [word.toUInt8, (word >>> 8).toUInt8]

/-- The bytes of a block of words. -/
def blockBytes (words : List UInt16) : List Byte := words.flatMap wordBytes

/-- A word is two bytes. -/
theorem length_blockBytes (words : List UInt16) :
    (blockBytes words).length = 2 * words.length := by
  induction words with
  | nil => rfl
  | cons word words ih =>
      simp only [blockBytes, List.flatMap_cons, List.length_append, wordBytes,
        List.length_cons, List.length_nil] at ih ⊢
      omega

/-- Words are stored one after the other. -/
theorem store_blockBytes_cons (memory : Memory) (ptr : Nat) (word : UInt16)
    (words : List UInt16) :
    memory.store ptr (blockBytes (word :: words)) =
      (memory.store ptr (wordBytes word)).store (ptr + 2) (blockBytes words) := by
  simp [blockBytes, wordBytes, Memory.store_cons]

/-- A block of `size` bytes is stored as its words arrive; an odd last byte is left. -/
theorem readWords_emits {cut : List Access → Prop} (size : Nat) (memory : Memory) (ptr : Nat) :
    Emits (readWords bus uIoBase size memory ptr) cut fun after emitted =>
      ∃ words, words.length = size / 2 ∧
        emitted = words.map (.inWord (ideRegData uIoBase)) ∧
        after = memory.store ptr (blockBytes words) := by
  refine Emits.of_returns ?_ (readWords_returns size memory ptr)
  induction size, memory, ptr using readWords.induct with
  | case1 ptr memory => exact .pure ⟨[], rfl, rfl, (Memory.store_nil memory).symm⟩
  | case2 ptr memory => exact .pure ⟨[], rfl, rfl, (Memory.store_nil memory).symm⟩
  | case3 size memory ptr ih =>
      refine (ioInputWord_emits _).andThen ?_
      rintro word _ rfl
      refine (ih word).mono (fun _ _ => trivial) ?_
      rintro after _ ⟨words, length, rfl, rfl⟩
      refine ⟨word :: words, ?_, rfl, ?_⟩
      · rw [List.length_cons, length]
        omega
      · exact (store_blockBytes_cons memory ptr word words).symm

/-- How an attempt to read a block ends: without a word, or with all of them. -/
inductive BlockRead (base : UInt16) (memory : Memory) (buf size : Nat) :
    Nat × Memory → List Access → Prop where
  | notReady {polls : List Access} (polled : ∀ access ∈ polls, IsPoll base access) :
      BlockRead base memory buf size (1, memory) polls
  | read {asked : List Access} {words : List UInt16} (status last : Byte)
      (polled : ∀ access ∈ asked, IsPoll base access) (ready : Ready base asked)
      (whole : words.length = size / 2) :
      BlockRead base memory buf size
        (if last &&& 0x01 ≠ 0 then 2 else 0, memory.store buf (blockBytes words))
        (asked ++ (words.map (.inWord (ideRegData base)) ++
          [.inByte (ideRegStatus base) status, .inByte (ideRegAltstatus base) last]))

/-- One attempt at a block: it polls, and reads the words if the drive was ready for them. -/
theorem readData_emits {cut : List Access → Prop} (memory : Memory) (buf size : Nat) :
    Emits (bootIdeReadData bus uIoBase memory buf size) cut
      (BlockRead uIoBase memory buf size) := by
  refine (pollDataReady_emits dataReadyPolls).andThen ?_
  rintro n asked ⟨polled, ready⟩
  refine .ite (fun _ => .pure ?_) fun zero => ?_
  · rw [List.append_nil]
    exact .notReady polled
  refine (readWords_emits size memory buf).andThen ?_
  rintro _ _ ⟨words, whole, rfl, rfl⟩
  refine (ioInputByte_emits _).andThen ?_
  rintro status _ rfl
  refine (ioInputByte_emits _).andThen ?_
  rintro last _ rfl
  have shape : BlockRead uIoBase memory buf size _ _ :=
    .read status last polled (ready (not_not.mp zero)) whole
  refine .ite (fun failed => .pure ?_) fun fine => .pure ?_
  · rw [if_pos failed] at shape
    simpa [List.append_assoc] using shape
  · rw [if_neg fine] at shape
    simpa [List.append_assoc] using shape

end Cromwell.Ide
