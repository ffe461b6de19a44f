import Cromwell.Ide.HddKey
import Cromwell.Ide.Reading

/-!
# Locking and unlocking from the menu

`DriveSecurityChange` returns zero exactly if the drive delivers an IDENTIFY block
at the end and reports no error after it; what the block says about the security
state is not looked at. The menu actions print their message of success whatever
was returned.
-/

namespace Cromwell.Ide

open Cromwell.Std Cromwell.Std.Program Cromwell.Crypt

/-! ## The actions -/

/-- What an action printed, and what `DriveSecurityChange` returned if it was called. -/
structure HddReport where
  texts : List String
  change : Option Nat

/-- The text `LockHdd` ends with. -/
def lockedText : String := "Complete.\nMake a note of the password above, and\n"

/-- The text `UnlockHdd` ends with. -/
def unlockedText : String := "\x02\n\x02\n\x02This drive is now unlocked.\n\n"

/-- `"\2%02x \2"`. -/
def passwordByte (byte : Byte) : String :=
  "\x02" ++ String.ofList [Nat.digitChar (byte.toNat / 16), Nat.digitChar (byte.toNat % 16)] ++
    " \x02"

/-- The password, five bytes to a line. -/
def passwordTexts (password : Vector Byte 20) : List String :=
  (password.toList.zipIdx.map fun (byte, i) =>
    if (i + 1) % 5 = 0 then [passwordByte byte, "\n\n                              "]
    else [passwordByte byte]).flatten

section Actions

variable {σ : Type} (bus : PortBus σ) (fuel : Nat) (stack : Memory)
  (tsaHarddiskInfo : Int → DriveInfo) (compress : Compress) (hashStack : SHA1Context)
  (eeprom : Memory) (identities : Fin 2 → TsHarddiskInfo)

/-- What `CalculateDrivePassword` returned, and the password it left. -/
def drivePassword (nIndexDrive : Fin 2) : Nat × Vector Byte 20 :=
  let calculated := calculateDrivePassword compress hashStack eeprom identities nIndexDrive stack 0
  (calculated.1, Vector.ofFn fun i : Fin 20 => calculated.2 i)

/-- `LockHdd`, up to the wait for a button. `confirmed` is the answer to `Confirm`. -/
def lockHdd (nIndexDrive : Fin 2) (confirmed : Bool) : IdeProgram σ HddReport :=
  if confirmed = false then pure { texts := [], change := none }
  else
    let (failed, password) :=
      drivePassword stack compress hashStack eeprom identities nIndexDrive
    if failed ≠ 0 then
      pure { texts := ["Unable to calculate drive password - eeprom corrupt?"], change := none }
    else do
      let before :=
        ["Locking drive\n\n",
          "Cromwell locks drives with a master password of \"\x02XBOXLINUX\x02\"\n\n" ++
            "Please remember this,",
          "as it could save your drive!\n\n",
          "The normal password (user password) the drive is being locked with is as follows:\n\n",
          "                              "] ++
        passwordTexts password ++ ["\nLocking drive - please wait\n"]
      let result ← driveSecurityChange bus fuel (tsaHarddiskInfo nIndexDrive.val).mFwPortBase stack
        nIndexDrive.val .securitySetPassword password
      pure
        { texts := before ++ (if result ≠ 0 then ["Lock command failed!"] else []) ++
            [lockedText, "press Button A to continue"]
          change := some result }

/-- `UnlockHdd`, up to the wait for a button. -/
def unlockHdd (nIndexDrive : Fin 2) (confirmed : Bool) : IdeProgram σ HddReport :=
  if confirmed = false then pure { texts := [], change := none }
  else
    let (failed, password) :=
      drivePassword stack compress hashStack eeprom identities nIndexDrive
    if failed ≠ 0 then
      pure
        { texts := ["Unable to calculate drive password - eeprom corrupt?  Aborting\n"]
          change := none }
    else do
      let result ← driveSecurityChange bus fuel (tsaHarddiskInfo nIndexDrive.val).mFwPortBase stack
        nIndexDrive.val .securityDisable password
      pure
        { texts := (if result ≠ 0 then ["Failed!"] else []) ++
            [unlockedText, "\x02Press Button A to continue"]
          change := some result }

end Actions

/-! ## When a change returns zero -/

section Change

variable {σ : Type} {bus : PortBus σ} {fuel : Nat} {uIoBase : UInt16}

/-- The drive delivered a whole block, and reported no error when that was over. -/
def Delivered (base : UInt16) (trace : List Access) : Prop :=
  (wordsRead base trace).length = 256 ∧
    ∃ before last, trace = before ++ [.inByte (ideRegAltstatus base) last] ∧ last &&& 0x01 = 0

theorem Wordless.not_delivered {trace : List Access} (wordless : Wordless trace) :
    ¬Delivered uIoBase trace := by
  rintro ⟨length, -⟩
  rw [wordless.wordsRead] at length
  cases length

theorem sendBlock_wordless (ideCmd : IdeCommand) (driveId : Int) (ideCmdData : Memory) :
    WordlessOnly (sendBlock bus fuel uIoBase ideCmd driveId ideCmdData) := by
  refine (issueAtaCommand_wordless _ _).bind fun _ => .ite (.pure _) ?_
  refine waitDataReady_wordless.bind fun _ => (writeData_wordless _ _ _).bind fun _ => ?_
  exact waitNotBusy_wordless.bind fun _ => .pure _

theorem setMasterPassword_wordless (ideCmd : IdeCommand) (driveId : Int) (stack : Memory) :
    WordlessOnly (setMasterPassword bus fuel uIoBase ideCmd driveId stack) := by
  refine .ite ((sendBlock_wordless _ _ _).bind fun sent => ?_) (.pure _)
  cases sent with
  | none => exact .pure _
  | some _ => exact .pure _

/-- The block is delivered exactly if zero is returned, whatever wordless accesses there
were before. -/
def Tells (base : UInt16) (n : Nat) (trace : List Access) : Prop :=
  ∀ before, Wordless before → (n = 0 ↔ Delivered base (before ++ trace))

theorem tells_of_wordless {n : Nat} {trace : List Access} (nonzero : n ≠ 0)
    (wordless : Wordless trace) : Tells uIoBase n trace :=
  fun _ wordlessBefore => iff_of_false nonzero (wordlessBefore.append wordless).not_delivered

theorem Tells.after {n : Nat} {first trace : List Access} (tells : Tells uIoBase n trace)
    (wordless : Wordless first) : Tells uIoBase n (first ++ trace) := by
  intro before wordlessBefore
  rw [← List.append_assoc]
  exact tells (before ++ first) (wordlessBefore.append wordless)

/-- The last access of a block that was read decides. -/
theorem tells_of_read {asked : List Access} {words : List UInt16} {status last : Byte}
    (polled : ∀ access ∈ asked, IsPoll uIoBase access) (whole : words.length = 256) (n : Nat)
    (result : n = 0 ↔ last &&& 0x01 = 0) :
    Tells uIoBase n (asked ++ (words.map (.inWord (ideRegData uIoBase)) ++
      [.inByte (ideRegStatus uIoBase) status, .inByte (ideRegAltstatus uIoBase) last])) := by
  intro before wordless
  have wordlessAsked : Wordless asked := fun access member => (polled access member).isWordless
  have wordlessEnd : Wordless [.inByte (ideRegStatus uIoBase) status,
      .inByte (ideRegAltstatus uIoBase) last] := by
    intro access member
    simp only [List.mem_cons, List.not_mem_nil, or_false] at member
    rcases member with rfl | rfl
    all_goals trivial
  have length : (wordsRead uIoBase (before ++ (asked ++
      (words.map (.inWord (ideRegData uIoBase)) ++ [.inByte (ideRegStatus uIoBase) status,
        .inByte (ideRegAltstatus uIoBase) last])))).length = 256 := by
    rw [wordsRead_append, wordsRead_append, wordsRead_append, wordless.wordsRead,
      wordlessAsked.wordsRead, wordsRead_words, wordlessEnd.wordsRead]
    simpa using whole
  have ending : before ++ (asked ++ (words.map (.inWord (ideRegData uIoBase)) ++
      [.inByte (ideRegStatus uIoBase) status, .inByte (ideRegAltstatus uIoBase) last])) =
      (before ++ (asked ++ (words.map (.inWord (ideRegData uIoBase)) ++
        [.inByte (ideRegStatus uIoBase) status]))) ++
      [.inByte (ideRegAltstatus uIoBase) last] := by simp
  rw [result, Delivered]
  constructor
  · exact fun clear => ⟨length, _, last, ending, clear⟩
  · rintro ⟨-, other, found, same, clear⟩
    rw [ending] at same
    have equal := (List.append_inj' same rfl).2
    injection equal with equal
    injection equal with _ equal
    rwa [equal]

theorem readIdentify_tells (driveId : Int) (ba : Memory) :
    Emits (readIdentify bus fuel uIoBase driveId ba) (fun _ => True) (Tells uIoBase) := by
  refine Emits.andThen ((issueAtaCommand_wordless _ _).mono (fun _ _ => trivial)
    fun _ _ held => held) ?_
  intro refused issued (wordless : Wordless issued)
  refine .ite (fun _ => .pure ?_) fun _ => ?_
  · exact tells_of_wordless Nat.one_ne_zero (wordless.append wordless_nil)
  refine Emits.andThen (waitDataReady_wordless.mono (fun _ _ => trivial) fun _ _ held => held) ?_
  intro _ waited (wordlessWait : Wordless waited)
  refine (readData_emits _ _ _).andThen ?_
  rintro ⟨status, memory⟩ trace block
  have told : Tells uIoBase (if status ≠ 0 then 1 else 0) (trace ++ []) := by
    rw [List.append_nil]
    cases block with
    | notReady polled =>
        exact tells_of_wordless Nat.one_ne_zero fun access member =>
          (polled access member).isWordless
    | read first last polled ready whole =>
        refine tells_of_read polled whole _ ?_
        by_cases clear : last &&& 0x01 = 0
        · simp [clear]
        · simp [clear]
  have all := (told.after wordlessWait).after wordless
  refine .ite (fun failed => .pure ?_) fun fine => .pure ?_
  · rwa [if_pos failed] at all
  · rwa [if_neg fine] at all

/-- A change returns zero exactly if the drive delivers its IDENTIFY block at the end. -/
theorem driveSecurityChange_zero_iff (stack : Memory) (driveId : Int) (ideCmd : IdeCommand)
    (password : Vector Byte 20) :
    Emits (driveSecurityChange bus fuel uIoBase stack driveId ideCmd password) (fun _ => True)
      fun n trace => n = 0 ↔ Delivered uIoBase trace := by
  have told : Emits (driveSecurityChange bus fuel uIoBase stack driveId ideCmd password)
      (fun _ => True) (Tells uIoBase) := by
    have free : ∀ {α : Type} {program : IdeProgram σ α}, WordlessOnly program →
        Emits program (fun _ => True) fun _ => Wordless := fun wordless =>
      Emits.mono wordless (fun _ _ => trivial) fun _ _ held => held
    refine (free waitNotBusy_wordless).andThen ?_
    intro n waited wordless
    refine .ite (fun _ => .pure ?_) fun _ => ?_
    · exact tells_of_wordless Nat.one_ne_zero (wordless.append wordless_nil)
    refine (free (setMasterPassword_wordless _ _ _)).andThen ?_
    intro left master wordlessMaster
    cases left with
    | none =>
        refine .pure (tells_of_wordless Nat.one_ne_zero ?_)
        exact wordless.append (wordlessMaster.append wordless_nil)
    | some ideCmdData =>
        refine (free (sendBlock_wordless _ _ _)).andThen ?_
        intro sent user wordlessUser
        cases sent with
        | none =>
            refine .pure (tells_of_wordless Nat.one_ne_zero ?_)
            exact wordless.append (wordlessMaster.append (wordlessUser.append wordless_nil))
        | some n =>
            refine .ite (fun _ => .pure ?_) fun _ => ?_
            · refine tells_of_wordless Nat.one_ne_zero ?_
              exact wordless.append (wordlessMaster.append (wordlessUser.append wordless_nil))
            · refine (readIdentify_tells driveId stack).mono (fun _ held => held) ?_
              intro n later tells
              exact ((tells.after wordlessUser).after wordlessMaster).after wordless
  refine told.mono (fun _ held => held) ?_
  intro n trace tells
  exact tells [] wordless_nil

end Change

/-! ## Honesty -/

/-- The bits of word 128 of the IDENTIFY block that are clear once the command took
effect: the drive is not locked, or security is not enabled. -/
def securityMask : IdeCommand → UInt16
  | .securityUnlock => 0x0004
  | .securityDisable => 0x0002
  | _ => 0

/-- What the IDENTIFY block says, as far as it was read, agrees with the command. -/
def Confirmed (base : UInt16) (ideCmd : IdeCommand) (trace : List Access) : Prop :=
  ∀ word ∈ (wordsRead base trace)[128]?, word &&& securityMask ideCmd = 0

instance (base : UInt16) (ideCmd : IdeCommand) (trace : List Access) :
    Decidable (Confirmed base ideCmd trace) := by
  unfold Confirmed
  cases (wordsRead base trace)[128]? with
  | none => exact .isTrue nofun
  | some word =>
      exact decidable_of_iff (word &&& securityMask ideCmd = 0)
        ⟨fun clear _ found => by rwa [← Option.mem_some_iff.mp found], fun held => held word rfl⟩

/-- Zero is returned only with a block that agrees with the command. -/
def HonestResult (base : UInt16) (ideCmd : IdeCommand) (n : Nat) (trace : List Access) : Prop :=
  n = 0 → Confirmed base ideCmd trace

/-- Success is reported only if the change returned zero. -/
def HddReport.Honest (report : HddReport) (success : String) : Prop :=
  success ∈ report.texts → report.change = some 0

section Honesty

variable {σ : Type} {bus : PortBus σ} {fuel : Nat} {uIoBase : UInt16} {stack eeprom : Memory}
  {tsaHarddiskInfo : Int → DriveInfo} {compress : Compress} {hashStack : SHA1Context}
  {identities : Fin 2 → TsHarddiskInfo}

/-- A report that ends with success after a change is honest if that returned zero. -/
theorem honest_iff_of_change {report : HddReport} {success : String} {result : Nat}
    {delivered called : Prop} (told : success ∈ report.texts) (change : report.change = some result)
    (zero : result = 0 ↔ delivered) (wasCalled : called) :
    report.Honest success ↔ (called → delivered) := by
  rw [HddReport.Honest, change, ← zero, Option.some_inj]
  exact ⟨fun honest _ => honest told, fun held _ => held wasCalled⟩

/-- A report without success is honest. -/
theorem honest_iff_of_silent {report : HddReport} {success : String} {delivered called : Prop}
    (silent : success ∉ report.texts) (notCalled : ¬called) :
    report.Honest success ↔ (called → delivered) :=
  iff_of_true (fun told => absurd told silent) fun wasCalled => absurd wasCalled notCalled

theorem lockHdd_honest_iff (nIndexDrive : Fin 2) (confirmed : Bool) :
    Emits (lockHdd bus fuel stack tsaHarddiskInfo compress hashStack eeprom identities nIndexDrive
      confirmed) (fun _ => True) fun report trace =>
        report.Honest lockedText ↔ (confirmed = true ∧
          (drivePassword stack compress hashStack eeprom identities nIndexDrive).1 = 0 →
            Delivered (tsaHarddiskInfo nIndexDrive.val).mFwPortBase trace) := by
  unfold lockHdd
  generalize drivePassword stack compress hashStack eeprom identities nIndexDrive = calculated
  obtain ⟨failed, password⟩ := calculated
  refine .ite (fun declined => .pure ?_) fun confirmation => ?_
  · exact honest_iff_of_silent List.not_mem_nil (by simp [declined])
  refine .ite (fun failed => .pure ?_) fun calculated => ?_
  · exact honest_iff_of_silent (by simp [lockedText]) fun called => failed called.2
  refine (driveSecurityChange_zero_iff _ _ _ _).andThen ?_
  intro result trace zero
  rw [← List.append_nil trace] at zero
  have asked : confirmed = true := by simpa using confirmation
  refine .pure (honest_iff_of_change ?_ rfl zero ⟨asked, not_not.mp calculated⟩)
  simp only [List.mem_append, List.mem_cons, true_or, or_true]

theorem unlockHdd_honest_iff (nIndexDrive : Fin 2) (confirmed : Bool) :
    Emits (unlockHdd bus fuel stack tsaHarddiskInfo compress hashStack eeprom identities
      nIndexDrive confirmed) (fun _ => True) fun report trace =>
        report.Honest unlockedText ↔ (confirmed = true ∧
          (drivePassword stack compress hashStack eeprom identities nIndexDrive).1 = 0 →
            Delivered (tsaHarddiskInfo nIndexDrive.val).mFwPortBase trace) := by
  unfold unlockHdd
  generalize drivePassword stack compress hashStack eeprom identities nIndexDrive = calculated
  obtain ⟨failed, password⟩ := calculated
  refine .ite (fun declined => .pure ?_) fun confirmation => ?_
  · exact honest_iff_of_silent List.not_mem_nil (by simp [declined])
  refine .ite (fun failed => .pure ?_) fun calculated => ?_
  · exact honest_iff_of_silent (by simp [unlockedText]) fun called => failed called.2
  refine (driveSecurityChange_zero_iff _ _ _ _).andThen ?_
  intro result trace zero
  rw [← List.append_nil trace] at zero
  have asked : confirmed = true := by simpa using confirmation
  refine .pure (honest_iff_of_change ?_ rfl zero ⟨asked, not_not.mp calculated⟩)
  simp only [List.mem_append, List.mem_cons, true_or, or_true]

/-- For every sequence of answers: a change is honest exactly if the drive, where it
delivers the block at the end, reports the state asked for; and a menu action is honest
exactly if the drive delivers that block whenever it is asked to change anything. -/
theorem securityChange_honest_iff (driveId : Int) (ideCmd : IdeCommand)
    (password : Vector Byte 20) (nIndexDrive : Fin 2) (confirmed : Bool) :
    (Emits (driveSecurityChange bus fuel uIoBase stack driveId ideCmd password) (fun _ => True)
      fun n trace => HonestResult uIoBase ideCmd n trace ↔
        (Delivered uIoBase trace → Confirmed uIoBase ideCmd trace)) ∧
    (Emits (lockHdd bus fuel stack tsaHarddiskInfo compress hashStack eeprom identities
      nIndexDrive confirmed) (fun _ => True) fun report trace =>
        report.Honest lockedText ↔ (confirmed = true ∧
          (drivePassword stack compress hashStack eeprom identities nIndexDrive).1 = 0 →
            Delivered (tsaHarddiskInfo nIndexDrive.val).mFwPortBase trace)) ∧
    Emits (unlockHdd bus fuel stack tsaHarddiskInfo compress hashStack eeprom identities
      nIndexDrive confirmed) (fun _ => True) fun report trace =>
        report.Honest unlockedText ↔ (confirmed = true ∧
          (drivePassword stack compress hashStack eeprom identities nIndexDrive).1 = 0 →
            Delivered (tsaHarddiskInfo nIndexDrive.val).mFwPortBase trace) := by
  refine ⟨?_, lockHdd_honest_iff nIndexDrive confirmed, unlockHdd_honest_iff nIndexDrive confirmed⟩
  refine (driveSecurityChange_zero_iff stack driveId ideCmd password).mono (fun _ held => held) ?_
  intro n trace zero
  rw [HonestResult, zero]

end Honesty

/-! ## A drive that stays locked -/

/-- A drive that accepts everything and reports, in every word, that it is locked. -/
def lockedBus : PortBus Unit where
  inByte _ _ := (0x48, ())
  inWord _ _ := (0x0004, ())
  outByte _ _ _ := ()
  outWord _ _ _ := ()

/-- An attempt to unlock that drive. -/
@[irreducible] def lockedUnlock : Pass (IdeState Unit) (Nat × IdeState Unit) :=
  driveSecurityChange lockedBus 1 0x1F0 (fun _ => 0) 0 .securityUnlock (Vector.replicate 20 0x55)
    { ports := (), trace := [] }

/-- Unlocking succeeds, and the drive says that it is locked. -/
theorem lockedUnlock_dishonest :
    ¬lockedUnlock.Ends (fun _ => True)
      fun outcome => HonestResult 0x1F0 .securityUnlock outcome.1 outcome.2.trace := by
  have locked : lockedUnlock.Ends (fun _ => False) fun outcome =>
      outcome.1 = 0 ∧ ¬Confirmed 0x1F0 .securityUnlock outcome.2.trace := by
    decide +kernel
  intro honest
  exact locked.contradict honest (fun _ never => never.elim)
    fun _ found held => found.2 (held found.1)

end Cromwell.Ide
