import Cromwell.Ide.Polling

/-!
# The order of the passwords

A drive is to be locked only with the master password in place. On the wire: the
block with the user password is sent only after the drive accepted the command
for the master password, asked for its block, took all of it, and reported no
error until the second command. The driver looks at none of this but the answer
to the commands, so the order is kept exactly by the drives that do not need it
to be: those that report no error and ask for the block in time, or refuse the
second command.
-/

namespace Cromwell.Ide

open Cromwell.Std Cromwell.Std.Program

/-! ## The order, on any trace -/

/-- The access that issues SET PASSWORD. -/
def lockCommand (base : UInt16) : Access :=
  .outByte (ideRegCommand base) IdeCommand.securitySetPassword.code

/-- The block of the master password: the flag, then the password and zeros. -/
def masterBlock : List UInt16 :=
  [0x0001, 0x4258, 0x584F, 0x494C, 0x554E, 0x0058] ++ List.replicate 250 0x0000

/-- The drive asked for data before any was sent. -/
def Asked (base : UInt16) (phase : List Access) : Prop :=
  ∃ asked later, phase = asked ++ later ∧ dataWords base asked = [] ∧
    ∃ status ∈ statuses base asked, Requests status

/-- The drive was found not busy after the last word it was sent. -/
def Finished (base : UInt16) (phase : List Access) : Prop :=
  ∃ sent later, phase = sent ++ later ∧ dataWords base later = [] ∧
    ∃ status ∈ statuses base later, NotBusy status

/-- No answer of the drive is an error. -/
def ErrorFree (base : UInt16) (phase : List Access) : Prop :=
  ∀ status ∈ statuses base phase, ¬Failed status

/-- Between the two commands the drive accepted the master password. -/
structure MasterAccepted (base : UInt16) (master : List Access) : Prop where
  asked : Asked base master
  whole : dataWords base master = masterBlock
  finished : Finished base master
  errorFree : ErrorFree base master

/-- The trace falls into what comes before the first SET PASSWORD command, what comes
between the two, and what comes after the second. -/
def LockPhases (base : UInt16) (before master user trace : List Access) : Prop :=
  trace = before ++ lockCommand base :: (master ++ lockCommand base :: user) ∧
    lockCommand base ∉ before ∧ lockCommand base ∉ master

/-- Words of the second block are sent only after the first was accepted. -/
def LockOrder (base : UInt16) (trace : List Access) : Prop :=
  ∀ before master user, LockPhases base before master user trace →
    dataWords base user ≠ [] → MasterAccepted base master

/-- The first answer to a command with which the drive is not busy is no error. -/
def CommandAccepted (base : UInt16) (phase : List Access) : Prop :=
  ∃ status, (statuses base phase).find? (fun status => decide (NotBusy status)) = some status ∧
    ¬Failed status

/-- Unless it refuses the second command, the drive asks for the master password in time
and reports no error with it. -/
def Heeded (base : UInt16) (trace : List Access) : Prop :=
  ∀ before master user, LockPhases base before master user trace →
    CommandAccepted base user → Asked base master ∧ ErrorFree base master

section Phases

variable {base : UInt16} {before master user trace : List Access}

theorem LockPhases.unique {before' master' user' : List Access}
    (first : LockPhases base before master user trace)
    (second : LockPhases base before' master' user' trace) : master = master' ∧ user = user' := by
  obtain ⟨same, notBefore, notMaster⟩ := first
  obtain ⟨same', notBefore', notMaster'⟩ := second
  obtain ⟨-, rest⟩ := first_unique (same.symm.trans same') notBefore notBefore'
  exact first_unique rest notMaster notMaster'

/-- What a run of the driver may have emitted: the second command comes after a complete
block and the end of it, and words follow it exactly if it was accepted. -/
inductive LockTrace (base : UInt16) : List Access → Prop where
  | unlocked {trace : List Access} (none : lockCommand base ∉ trace) : LockTrace base trace
  | master {before phase : List Access} (notBefore : lockCommand base ∉ before)
      (notPhase : lockCommand base ∉ phase) : LockTrace base (before ++ lockCommand base :: phase)
  | user {before master user : List Access}
      (phases : lockCommand base ∉ before ∧ lockCommand base ∉ master)
      (whole : dataWords base master = masterBlock) (finished : Finished base master)
      (sent : dataWords base user ≠ [] ↔ CommandAccepted base user) :
      LockTrace base (before ++ lockCommand base :: (master ++ lockCommand base :: user))

/-- The order is kept exactly where the drive heeds it. -/
theorem LockTrace.iff (locked : LockTrace base trace) :
    LockOrder base trace ↔ Heeded base trace := by
  cases locked with
  | unlocked none =>
      have noPhases : ∀ before master user, ¬LockPhases base before master user trace := by
        rintro before master user ⟨rfl, -, -⟩
        exact none (by simp)
      exact iff_of_true (fun before master user phases => absurd phases (noPhases _ _ _))
        fun before master user phases => absurd phases (noPhases _ _ _)
  | @master start phase notBefore notPhase =>
      have noPhases : ∀ before master user, ¬LockPhases base before master user
          (start ++ lockCommand base :: phase) := by
        rintro before master user ⟨same, notFirst, -⟩
        obtain ⟨-, rest⟩ := first_unique same notBefore notFirst
        exact notPhase (by simp [rest])
      exact iff_of_true (fun before master user phases => absurd phases (noPhases _ _ _))
        fun before master user phases => absurd phases (noPhases _ _ _)
  | @user start first second phases whole finished sent =>
      have here : LockPhases base start first second
          (start ++ lockCommand base :: (first ++ lockCommand base :: second)) := ⟨rfl, phases⟩
      constructor
      · intro order before master user other accepted
        obtain ⟨rfl, rfl⟩ := other.unique here
        have held := order _ _ _ other (sent.mpr accepted)
        exact ⟨held.asked, held.errorFree⟩
      · intro heeded before master user other words
        obtain ⟨rfl, rfl⟩ := other.unique here
        obtain ⟨asked, errorFree⟩ := heeded _ _ _ other (sent.mp words)
        exact ⟨asked, whole, finished, errorFree⟩

end Phases

/-! ## Parts without commands and words -/

/-- The access neither sends a word nor issues SET PASSWORD. -/
def Idle (base : UInt16) (access : Access) : Prop :=
  access ≠ lockCommand base ∧ ∀ word, access ≠ .outWord (ideRegData base) word

/-- All accesses are idle. -/
def IdleOnly (base : UInt16) (trace : List Access) : Prop := ∀ access ∈ trace, Idle base access

section Idle

variable {base : UInt16} {first second trace : List Access}

theorem IdleOnly.append (idleFirst : IdleOnly base first) (idleSecond : IdleOnly base second) :
    IdleOnly base (first ++ second) :=
  fun access member => (List.mem_append.mp member).elim (idleFirst access) (idleSecond access)

theorem IdleOnly.absent (idle : IdleOnly base trace) : lockCommand base ∉ trace :=
  fun member => (idle _ member).1 rfl

theorem IdleOnly.dataWords (idle : IdleOnly base trace) : dataWords base trace = [] := by
  refine List.filterMap_eq_nil_iff.mpr ?_
  intro access member
  have isIdle := idle access member
  cases access with
  | inByte _ _ => rfl
  | inWord _ _ => rfl
  | outByte _ _ => rfl
  | outWord wAds word =>
      refine if_neg fun data => ?_
      exact isIdle.2 word (congrArg (fun port => Access.outWord port word) data)

theorem IsRead.idle {access : Access} (isRead : IsRead access) : Idle base access := by
  cases access with
  | inByte _ _ => exact ⟨nofun, nofun⟩
  | inWord _ _ => exact ⟨nofun, nofun⟩
  | outByte _ _ => exact isRead.elim
  | outWord _ _ => exact isRead.elim

theorem Reads.idle (reads : Reads trace) : IdleOnly base trace :=
  fun access member => (reads access member).idle

/-- Everything of a task file but a SET PASSWORD command is idle. -/
theorem taskFileWrites_idle {command : IdeCommand} (params : IdeCommandParams)
    (other : command.code ≠ IdeCommand.securitySetPassword.code) :
    IdleOnly base (taskFileWrites base command params) := by
  intro access member
  refine ⟨?_, ?_⟩
  · rintro rfl
    simp [taskFileWrites, lockCommand, ideRegCommand, ideRegSectorCount, ideRegSectorNumber,
      ideRegCylinderLsb, ideRegCylinderMsb, ideRegDrivehead] at member
    exact other member.symm
  · rintro word rfl
    simp [taskFileWrites] at member

theorem taskFileWrites_lock (base : UInt16) (params : IdeCommandParams) :
    ∃ registers, IdleOnly base registers ∧
      taskFileWrites base .securitySetPassword params = registers ++ [lockCommand base] := by
  refine ⟨(taskFileWrites base .securitySetPassword params).take 9, ?_, rfl⟩
  intro access member
  refine ⟨?_, ?_⟩
  · rintro rfl
    simp [taskFileWrites, lockCommand, ideRegCommand, ideRegSectorCount, ideRegSectorNumber,
      ideRegCylinderLsb, ideRegCylinderMsb, ideRegDrivehead] at member
  · rintro word rfl
    simp [taskFileWrites] at member

/-- A SET PASSWORD command splits the trace. -/
theorem Commanded.locked {params : IdeCommandParams} {answered : List Access → Prop}
    (commanded : Commanded base .securitySetPassword params answered trace) :
    ∃ before answer, IdleOnly base before ∧ answered answer ∧
      trace = before ++ lockCommand base :: answer := by
  obtain ⟨waited, answer, reads, held, rfl⟩ := commanded
  obtain ⟨registers, idle, writes⟩ := taskFileWrites_lock base params
  refine ⟨waited ++ registers, answer, reads.idle.append idle, held, ?_⟩
  rw [writes]
  simp

end Idle

/-! ## The answers to a command -/

section Answers

variable {base : UInt16} {answer later : List Access} {words : List UInt16}
  {settled : List Access → Prop}

theorem dataWords_words (words : List UInt16) :
    dataWords base (words.map (.outWord (ideRegData base))) = words := by
  induction words with
  | nil => rfl
  | cons word words ih => simp [dataWords]

theorem Taken.dataWords (taken : Taken base words settled answer)
    (reads : ∀ after, settled after → Reads after) : dataWords base answer = words := by
  obtain ⟨status, first, rest, answered, -, ⟨asked, after, readsAsked, held, rfl⟩, rfl⟩ := taken
  rw [dataWords_append, dataWords_append, dataWords_append, answered.reads.dataWords,
    readsAsked.dataWords, dataWords_words, (reads after held).dataWords]
  simp

theorem Taken.absent (taken : Taken base words settled answer)
    (reads : ∀ after, settled after → Reads after) : lockCommand base ∉ answer := by
  obtain ⟨status, first, rest, answered, -, ⟨asked, after, readsAsked, held, rfl⟩, rfl⟩ := taken
  have inWords : lockCommand base ∉ words.map (.outWord (ideRegData base)) := by
    simp [lockCommand]
  have inFirst : lockCommand base ∉ first := answered.reads.idle.absent
  have inAsked : lockCommand base ∉ asked := readsAsked.idle.absent
  have inAfter : lockCommand base ∉ after := (reads after held).idle.absent
  simp only [List.mem_append, not_or]
  exact ⟨inFirst, inAsked, inWords, inAfter⟩

/-- A block that was waited for is finished, and stays so. -/
theorem Taken.finished (taken : Taken base words (Settled base) answer)
    (idle : IdleOnly base later) : Finished base (answer ++ later) := by
  obtain ⟨status, first, rest, -, -, ⟨asked, after, -, held, rfl⟩, rfl⟩ := taken
  obtain ⟨reads, found, member, free⟩ := held
  refine ⟨first ++ (asked ++ words.map (.outWord (ideRegData base))), after ++ later, by simp, ?_,
    found, ?_, free⟩
  · rw [dataWords_append, reads.dataWords, idle.dataWords]
    rfl
  · rw [statuses_append]
    exact List.mem_append_left _ member

/-- The first answer that counts is the one the wait ended with. -/
theorem find_answered {status : Byte} (answered : Answered base status answer)
    (later : List Access) :
    (statuses base (answer ++ later)).find? (fun found => decide (NotBusy found)) =
      some status := by
  obtain ⟨polls, busy, free, rfl⟩ := answered
  have none : (statuses base polls).find? (fun found => decide (NotBusy found)) = none := by
    refine List.find?_eq_none.mpr ?_
    intro found member
    simpa using busy.statuses member
  rw [statuses_append, statuses_append, statuses_answer, List.append_assoc, List.find?_append,
    none, Option.none_or, List.singleton_append, List.find?_cons_of_pos]
  exact decide_eq_true free

theorem Taken.accepted (taken : Taken base words settled answer) :
    CommandAccepted base (answer ++ later) := by
  obtain ⟨status, first, rest, answered, clear, -, rfl⟩ := taken
  refine ⟨status, ?_, fun failed => failed.2 clear⟩
  rw [List.append_assoc]
  exact find_answered answered _

theorem Refused.not_accepted (refused : Refused base answer) : ¬CommandAccepted base answer := by
  obtain ⟨status, answered, failed⟩ := refused
  rintro ⟨found, first, fine⟩
  have free : NotBusy status := answered.choose_spec.2.1
  have same := find_answered answered []
  rw [List.append_nil, first] at same
  injection same with equal
  rw [equal] at fine
  exact fine ⟨free, failed⟩

theorem Polls.not_accepted (polls : Polls base answer) : ¬CommandAccepted base answer := by
  rintro ⟨found, first, -⟩
  have free := List.find?_some first
  exact polls.statuses (List.mem_of_find?_eq_some first) (of_decide_eq_true free)

end Answers

/-! ## The driver -/

section Driver

variable {σ : Type} {bus : PortBus σ} {fuel : Nat} {uIoBase : UInt16}

theorem blockWords_congr {memory other : Memory} {buf size : Nat}
    (same : ∀ address, buf ≤ address → address < buf + size → memory address = other address) :
    blockWords memory buf size = blockWords other buf size := by
  induction buf, size using blockWords.induct with
  | case1 buf => rfl
  | case2 buf => rfl
  | case3 buf size ih =>
      have rest := ih fun address lower upper => same address (by omega) (by omega)
      have low := same buf (by omega) (by omega)
      have high := same (buf + 1) (by omega) (by omega)
      rw [blockWords, blockWords, rest, wordAt, wordAt, low, high]

/-- Whatever `ide_cmd_data` held before, the block sent first is that of the master
password. -/
theorem blockWords_masterData (stack : Memory) :
    blockWords (masterData stack) 0 ideSectorSize = masterBlock := by
  have same : blockWords (masterData stack) 0 ideSectorSize =
      blockWords (masterData fun _ => 0) 0 ideSectorSize := by
    refine blockWords_congr fun address _ upper => ?_
    have inside : address < 512 := by simpa [ideSectorSize] using upper
    simp [masterData, Memory.store, Memory.set, Memory.memset, inside]
  rw [same]
  decide +kernel

theorem blockWords_ne_nil (memory : Memory) : blockWords memory 0 ideSectorSize ≠ [] :=
  List.cons_ne_nil _ _

theorem setMasterPassword_emits (driveId : Int) (stack : Memory) :
    Emits (setMasterPassword bus fuel uIoBase .securitySetPassword driveId stack)
      (fun trace => Reads trace ∨
        Commanded uIoBase .securitySetPassword { mBDrivehead := selectDrive driveId }
          (fun answer => Polls uIoBase answer ∨ Taken uIoBase masterBlock Reads answer) trace)
      fun left => Commanded uIoBase .securitySetPassword { mBDrivehead := selectDrive driveId }
        fun answer =>
          match left with
          | none => Refused uIoBase answer
          | some _ => Taken uIoBase masterBlock (Settled uIoBase) answer := by
  have sent := sendBlock_emits bus fuel uIoBase .securitySetPassword driveId (masterData stack)
  rw [blockWords_masterData] at sent
  refine sent.andThen ?_
  intro result emitted held
  cases result with
  | none => exact .pure (by rwa [List.append_nil])
  | some n => exact .pure (by rwa [List.append_nil])

theorem readIdentify_idle (driveId : Int) (ba : Memory) :
    EmitsOnly IdeState.trace (Idle uIoBase) (readIdentify bus fuel uIoBase driveId ba) := by
  have idle : ∀ {α : Type} {program : IdeProgram σ α}, ReadsOnly program →
      EmitsOnly IdeState.trace (Idle uIoBase) program := fun reads =>
    EmitsOnly.weaken reads fun _ => IsRead.idle
  have written : EmitsOnly IdeState.trace (Idle uIoBase)
      (writeTaskFile bus uIoBase .identify { mBDrivehead := selectDrive driveId }) := by
    refine Emits.mono (writeTaskFile_emits _ _) (fun _ held => held) ?_
    rintro _ _ rfl
    exact taskFileWrites_idle _ (by decide)
  have issued : EmitsOnly IdeState.trace (Idle uIoBase) (bootIdeIssueAtaCommand bus fuel uIoBase
      .identify { mBDrivehead := selectDrive driveId }) := by
    refine (idle (ioInputByte_reads _)).bind fun _ => (idle waitNotBusy_reads).bind fun _ => ?_
    exact written.bind fun _ => (idle waitNotBusy_reads).bind fun _ => .ite (.pure _) (.pure _)
  refine issued.bind fun _ => .ite (.pure _) ?_
  refine (idle waitDataReady_reads).bind fun _ => ?_
  exact (idle (readData_reads _ _ _)).bind fun _ => .ite (.pure _) (.pure _)

theorem Settled.reads {trace : List Access} (settled : Settled uIoBase trace) : Reads trace :=
  settled.1

/-- The second command after a finished block. -/
theorem lockTrace_user {before master between user : List Access}
    (idleBefore : IdleOnly uIoBase before)
    (taken : Taken uIoBase masterBlock (Settled uIoBase) master)
    (idleBetween : IdleOnly uIoBase between)
    (sent : dataWords uIoBase user ≠ [] ↔ CommandAccepted uIoBase user) :
    LockTrace uIoBase (before ++ lockCommand uIoBase ::
      (master ++ (between ++ lockCommand uIoBase :: user))) := by
  have absent : lockCommand uIoBase ∉ master ++ between := by
    rw [List.mem_append, not_or]
    exact ⟨taken.absent fun _ => Settled.reads, idleBetween.absent⟩
  have whole : dataWords uIoBase (master ++ between) = masterBlock := by
    rw [dataWords_append, taken.dataWords fun _ => Settled.reads, idleBetween.dataWords,
      List.append_nil]
  have shape := LockTrace.user ⟨idleBefore.absent, absent⟩ whole (taken.finished idleBetween) sent
  rwa [List.append_assoc] at shape

/-- Words follow an accepted command, and none a refused one. -/
theorem sent_iff_of_taken {words : List UInt16} {settled : List Access → Prop}
    {answer : List Access} (taken : Taken uIoBase words settled answer)
    (reads : ∀ after, settled after → Reads after) (some : words ≠ []) (later : List Access) :
    dataWords uIoBase (answer ++ later) ≠ [] ↔ CommandAccepted uIoBase (answer ++ later) := by
  refine iff_of_true ?_ taken.accepted
  rw [dataWords_append, taken.dataWords reads]
  exact fun none => some (List.append_eq_nil_iff.mp none).1

theorem sent_iff_of_reads {answer : List Access} (reads : Reads answer)
    (refused : ¬CommandAccepted uIoBase answer) :
    dataWords uIoBase answer ≠ [] ↔ CommandAccepted uIoBase answer :=
  iff_of_false (not_not.mpr reads.dataWords) refused

theorem Refused.reads {answer : List Access} (refused : Refused uIoBase answer) :
    Reads answer := by
  obtain ⟨status, answered, -⟩ := refused
  exact answered.reads

/-- Every run of the driver that locks a drive, whatever the drive answers. -/
theorem driveSecurityChange_locks (stack : Memory) (driveId : Int) (password : Vector Byte 20) :
    Emits (driveSecurityChange bus fuel uIoBase stack driveId .securitySetPassword password)
      (LockTrace uIoBase) fun _ => LockTrace uIoBase := by
  have waits : Emits (bootIdeWaitNotBusy bus fuel uIoBase) (LockTrace uIoBase) fun _ => Reads :=
    waitNotBusy_reads.mono (fun _ reads => .unlocked (Reads.idle reads).absent)
      fun _ _ held => held
  refine waits.andThen ?_
  intro n start readsStart
  have idleStart : IdleOnly uIoBase start := readsStart.idle
  refine .ite (fun _ => .pure ?_) fun _ => ?_
  · exact .unlocked (by simpa using idleStart.absent)
  refine ((setMasterPassword_emits driveId stack).mono ?_ fun _ _ held => held).andThen ?_
  · rintro trace (reads | commanded)
    · exact .unlocked (idleStart.append (Reads.idle reads)).absent
    · obtain ⟨before, answer, idle, held, rfl⟩ := commanded.locked
      have absent : lockCommand uIoBase ∉ answer := by
        cases held with
        | inl polls => exact polls.reads.idle.absent
        | inr taken => exact taken.absent fun _ => id
      rw [← List.append_assoc]
      exact .master (idleStart.append idle).absent absent
  intro left trace commanded
  obtain ⟨before, master, idle, held, rfl⟩ := commanded.locked
  have idleBefore := idleStart.append idle
  cases left with
  | none =>
      refine .pure ?_
      rw [List.append_nil, ← List.append_assoc]
      exact .master idleBefore.absent (Refused.reads held).idle.absent
  | some ideCmdData =>
      have taken : Taken uIoBase masterBlock (Settled uIoBase) master := held
      have words := blockWords_ne_nil (userData ideCmdData password)
      refine ((sendBlock_emits _ _ _ _ _ _).mono ?_ fun _ _ held => held).andThen ?_
      · rintro later (reads | commandedUser)
        · have absent : lockCommand uIoBase ∉ master ++ later := by
            rw [List.mem_append, not_or]
            exact ⟨taken.absent fun _ => Settled.reads, (Reads.idle reads).absent⟩
          have shape := LockTrace.master idleBefore.absent absent
          simpa [List.append_assoc] using shape
        · obtain ⟨between, user, idleBetween, heldUser, rfl⟩ := commandedUser.locked
          have sent : dataWords uIoBase user ≠ [] ↔ CommandAccepted uIoBase user := by
            cases heldUser with
            | inl polls => exact sent_iff_of_reads polls.reads polls.not_accepted
            | inr takenUser =>
                have same := sent_iff_of_taken takenUser (fun _ => id) words []
                rwa [List.append_nil] at same
          have shape := lockTrace_user idleBefore taken idleBetween sent
          simpa [List.append_assoc] using shape
      intro sentUser later commandedUser
      obtain ⟨between, user, idleBetween, heldUser, rfl⟩ := commandedUser.locked
      cases sentUser with
      | none =>
          refine .pure ?_
          have refused : Refused uIoBase user := heldUser
          have shape := lockTrace_user idleBefore taken idleBetween
            (sent_iff_of_reads refused.reads refused.not_accepted)
          simpa [List.append_assoc] using shape
      | some n =>
          have takenUser : Taken uIoBase (blockWords (userData ideCmdData password) 0
            ideSectorSize) (Settled uIoBase) user := heldUser
          have extended : ∀ later, LockTrace uIoBase (start ++
              (before ++ lockCommand uIoBase :: master ++
                (between ++ lockCommand uIoBase :: user ++ later))) := by
            intro later
            have shape := lockTrace_user idleBefore taken idleBetween
              (sent_iff_of_taken takenUser (fun _ => Settled.reads) words later)
            simpa [List.append_assoc] using shape
          refine .ite (fun _ => .pure (extended [])) fun _ => ?_
          exact (readIdentify_idle driveId stack).mono (fun later _ => extended later)
            fun _ later _ => extended later

/-- For every sequence of answers of the drive, complete or not, the user password is sent
only after the master password was accepted exactly if the drive heeds it. -/
theorem lockOrder_iff_heeded (stack : Memory) (driveId : Int) (password : Vector Byte 20) :
    Emits (driveSecurityChange bus fuel uIoBase stack driveId .securitySetPassword password)
      (fun trace => LockOrder uIoBase trace ↔ Heeded uIoBase trace)
      fun _ trace => LockOrder uIoBase trace ↔ Heeded uIoBase trace :=
  (driveSecurityChange_locks stack driveId password).mono (fun _ => LockTrace.iff)
    fun _ _ => LockTrace.iff

end Driver

/-! ## A drive that refuses the master password -/

/-- A drive that takes the block of the master password, reports an error, and then
accepts the other one. It refuses the command after that. -/
structure RefusingDrive where
  commands : Nat
  words : Nat

def RefusingDrive.status (drive : RefusingDrive) : Byte :=
  if drive.commands = 0 then 0x40
  else if drive.commands = 3 then 0x41
  else if drive.words < 256 then 0x48
  else if drive.commands = 1 then 0x41
  else 0x40

def refusingBus : PortBus RefusingDrive where
  inByte drive _ := (drive.status, drive)
  inWord drive _ := (0, drive)
  outByte drive wAds _ :=
    if wAds = ideRegCommand 0x1F0 then { commands := drive.commands + 1, words := 0 } else drive
  outWord drive _ _ := { drive with words := drive.words + 1 }

/-- An attempt to lock that drive. -/
@[irreducible] def refusedLock : Pass (IdeState RefusingDrive) (Nat × IdeState RefusingDrive) :=
  driveSecurityChange refusingBus 1 0x1F0 (fun _ => 0) 0 .securitySetPassword
    (Vector.replicate 20 0x55) { ports := { commands := 0, words := 0 }, trace := [] }

/-- An error is reported between the commands, and words follow the second one. -/
def Disordered (base : UInt16) (trace : List Access) : Prop :=
  match trace.splitOn (lockCommand base) with
  | [before, master, user] =>
    lockCommand base ∉ before ∧ lockCommand base ∉ master ∧ dataWords base user ≠ [] ∧
      ∃ status ∈ statuses base master, Failed status
  | _ => False

instance (base : UInt16) (trace : List Access) : Decidable (Disordered base trace) := by
  unfold Disordered
  split
  · infer_instance
  · infer_instance

theorem Disordered.not_lockOrder {base : UInt16} {trace : List Access}
    (disordered : Disordered base trace) : ¬LockOrder base trace := by
  intro order
  unfold Disordered at disordered
  split at disordered
  · rename_i before master user split
    obtain ⟨notBefore, notMaster, sent, status, member, failed⟩ := disordered
    have whole : [lockCommand base].intercalate (trace.splitOn (lockCommand base)) = trace :=
      List.intercalate_splitOn (lockCommand base)
    rw [split] at whole
    have phases : LockPhases base before master user trace := by
      refine ⟨?_, notBefore, notMaster⟩
      rw [← whole]
      simp [List.intercalate]
    exact (order _ _ _ phases sent).errorFree status member failed
  · exact disordered

/-- The user password is sent after the drive reported an error with the master
password. -/
theorem refusedLock_disordered :
    ¬refusedLock.Ends (fun cut => LockOrder 0x1F0 cut.trace)
      fun outcome => LockOrder 0x1F0 outcome.2.trace := by
  have sent : refusedLock.Ends (fun cut => Disordered 0x1F0 cut.trace)
      fun outcome => Disordered 0x1F0 outcome.2.trace := by
    decide +kernel
  intro ordered
  exact sent.contradict ordered (fun _ => Disordered.not_lockOrder)
    fun _ => Disordered.not_lockOrder

end Cromwell.Ide
