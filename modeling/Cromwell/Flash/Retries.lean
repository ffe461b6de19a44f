import Cromwell.Flash.RetryLoops

/-!
# How often the flash is tried

The three loops follow the rule of retry loops: the erase loop counts its tries for a
4K block, the program loop for a byte, and the verify loop never tries. So whatever the
flash answers, no block sees more than four erase rounds, no byte is programmed more
than four times, and a run ends unless it waits in a polling loop.
-/

namespace Cromwell.Flash

open Cromwell.Std Cromwell.Std.Program

/-! ## The rules of the loops -/

/-- Erase rounds are counted for a 4K block. -/
def eraseRule : RetryRule where
  group := fun address => address / 0x1000
  monotone := fun _ _ le => Nat.div_le_div_right le
  kind := (·.isErase)

/-- Programming is counted for a byte. -/
def programRule : RetryRule where
  group := id
  monotone := monotone_id
  kind := (!·.isErase)

/-- Verifying issues nothing. -/
def verifyRule : RetryRule where
  group := id
  monotone := monotone_id
  kind := fun _ => False

/-- Where the erase loop stands, and its count of tries for the block it tried last. -/
def EraseLocals.position (locals : EraseLocals) : Position where
  dw := locals.dw
  dwLen := locals.dwLen
  counter := ⟨locals.dwLastEraseAddress.toNat, locals.nCountEraseRetryIn4KBlock⟩

/-- Where the program loop stands, and its count of tries for the byte it tried last. -/
def ProgramLocals.position (locals : ProgramLocals) : Position where
  dw := locals.dw
  dwLen := locals.dwLen
  counter := ⟨locals.dwLastProgramAddress.toNat, locals.nCountProgramRetries⟩

/-- The verify loop counts nothing. -/
def VerifyLocals.position (locals : VerifyLocals) : Position where
  dw := locals.dw
  dwLen := locals.dwLen
  counter := ⟨0, 4⟩

/-- Two addresses are in one 4K block. -/
theorem sameBlock_iff (first second : UInt32) :
    first &&& 0xfffff000 = second &&& 0xfffff000 ↔
      first.toNat / 0x1000 = second.toNat / 0x1000 := by
  have masked : ∀ address : UInt32,
      (address &&& 0xfffff000).toNat = address.toNat / 0x1000 * 0x1000 := fun address =>
    (UInt32.toNat_and address 0xfffff000).trans
      (and_highMask 32 12 (by omega) address.toNat_lt)
  rw [← UInt32.toNat_inj, masked, masked]
  omega

/-- The erase loop counts a try as its rule does. -/
theorem EraseLocals.position_countRetry (locals : EraseLocals) :
    locals.countRetry.position = eraseRule.retried locals.position := by
  unfold countRetry RetryRule.retried RetryCounter.count
  simp only [sameBlock_iff]
  by_cases same : locals.dwLastEraseAddress.toNat / 0x1000 = locals.dw.toNat / 0x1000
  · simp [same, position, eraseRule]
  · simp [same, position, eraseRule]

/-- The program loop counts a try as its rule does. -/
theorem ProgramLocals.position_countRetry (locals : ProgramLocals) :
    locals.countRetry.position = programRule.retried locals.position := by
  unfold countRetry RetryRule.retried RetryCounter.count
  simp only [← UInt32.toNat_inj]
  by_cases same : locals.dwLastProgramAddress.toNat = locals.dw.toNat
  · simp [same, position, programRule]
  · simp [same, position, programRule]

section Driver

variable {σ : Type} {bus : FlashBus σ} {pof : ObjectFlash} {fuel : Nat}

/-! ## Erasing -/

/-- What an erase round issues is a round that the rule allows at its address. -/
theorem eraseRound_issues (current : EraseLocals) :
    Issues current.dw.toNat (rounds eraseRule current.position)
      (eraseRound bus.traced fuel pof current) := by
  have dw := current.countRetry_dw
  have left : (eraseRule.retried current.position).counter.left =
      current.countRetry.nCountEraseRetryIn4KBlock :=
    congrArg (·.counter.left) current.position_countRetry.symm
  have place : current.position.dw = current.countRetry.dw := dw.symm
  unfold eraseRound rounds
  rw [left, place, ← dw]
  generalize current.countRetry = locals
  dsimp only
  by_cases spent : locals.nCountEraseRetryIn4KBlock = 0
  · rw [if_pos spent]
    refine (Quiet.issues ?_).mono ?_
    · exact (deliverError_quiet _ _ _ _ _ _).bind fun _ => (readFlash_quiet bus _).bind fun b =>
        (setErrorInfo_quiet _).bind fun _ => .pure _
    · rintro _ rfl
      exact .inl ⟨spent, rfl⟩
  · rw [if_neg spent]
    refine Issues.mono ?_ fun cycles (operation :
      cycles ∈ operationsAt (·.isErase) locals.dw.toNat) => Or.inr ⟨spent, operation⟩
    refine Issues.ite (fun _ => ?_) fun _ => ?_
    · refine (erase28xxx_issues fuel locals.dw).quietly fun b => .ite ?_ (.pure _)
      exact (deliverError_quiet _ _ _ _ _ _).bind fun _ => (setErrorInfo_quiet _).bind fun _ =>
        .pure _
    · exact (erase29xxx_issues fuel pof locals.dw _).quietly fun _ => .pure _

/-- A round stays where it is. -/
theorem eraseRound_result (current : EraseLocals) (state : FlashState (σ × List Cycle)) :
    (eraseRound bus.traced fuel pof current).Ensures state (fun _ => True) fun ended _ =>
      ended.Ends (fun next => next.position = eraseRule.retried current.position ∧
        (eraseRule.retried current.position).counter.left ≠ 0) fun _ => True := by
  have moved := current.position_countRetry
  have left : (eraseRule.retried current.position).counter.left =
      current.countRetry.nCountEraseRetryIn4KBlock := congrArg (·.counter.left) moved.symm
  unfold eraseRound
  rw [← moved]
  dsimp only
  split
  · exact (ensures_true _ _).andThen fun _ _ _ => (ensures_true _ _).andThen fun _ _ _ => trivial
  next tries =>
    split
    · refine (ensures_true _ _).andThen fun b _ _ => ?_
      split
      · exact (ensures_true _ _).andThen fun _ _ _ => trivial
      · exact ⟨rfl, tries⟩
    · exact (ensures_true _ _).andThen fun _ _ _ => ⟨rfl, tries⟩

/-- The erase loop goes on by one address, and leaves its count as it is. -/
theorem eraseAdvance_result (locals : EraseLocals) (state : FlashState (σ × List Cycle)) :
    (eraseAdvance pof locals).Ensures state (fun _ => True) fun ended _ =>
      ended.Ends (fun next => next.position = RetryRule.advanced locals.position)
        fun _ => True := by
  refine (ensures_true _ _).andThen fun accepted _ _ => ?_
  cases accepted with
  | true => rfl
  | false => trivial

/-- A pass of the erase loop goes on where the byte is erased, and else tries as the rule
allows. -/
theorem erasePass_follows :
    Follows eraseRule EraseLocals.position (erasePass bus.traced fuel pof) where
  finished locals done := if_pos done
  working locals more := by
    have pass : locals.dwLen ≠ 0 := more
    unfold erasePass
    rw [if_neg pass]
    refine looked locals.position fun b => Emits.ite (fun _ => ?_) fun _ => ?_
    · exact ended_round (eraseRound_issues locals) (eraseRound_result locals)
    · refine ended_advance ?_ (eraseAdvance_result locals)
      refine (deliverUpdate_quiet _ _ _ _ _).bind fun accepted => ?_
      cases accepted with
      | true => exact .pure _
      | false => exact .pure _

/-! ## Programming -/

/-- What a program round issues is a round that the rule allows at its address. -/
theorem programRound_issues (pba : Memory) (current : ProgramLocals) :
    Issues current.dw.toNat (rounds programRule current.position)
      (programRound bus.traced fuel pof pba current) := by
  have dw := current.countRetry_dw
  have left : (programRule.retried current.position).counter.left =
      current.countRetry.nCountProgramRetries :=
    congrArg (·.counter.left) current.position_countRetry.symm
  have place : current.position.dw = current.countRetry.dw := dw.symm
  unfold programRound rounds
  rw [left, place, ← dw]
  generalize current.countRetry = locals
  dsimp only
  by_cases spent : locals.nCountProgramRetries = 0
  · rw [if_pos spent]
    refine (Quiet.issues ?_).mono ?_
    · exact (deliverError_quiet _ _ _ _ _ _).bind fun _ => (readFlash_quiet bus _).bind fun b =>
        (setErrorInfo_quiet _).bind fun _ => .pure _
    · rintro _ rfl
      exact .inl ⟨spent, rfl⟩
  · rw [if_neg spent]
    refine Issues.mono ?_ fun cycles (operation :
      cycles ∈ operationsAt (!·.isErase) locals.dw.toNat) => Or.inr ⟨spent, operation⟩
    refine Issues.ite (fun _ => ?_) fun _ => ?_
    · refine (program28xxx_issues fuel locals.dw _).quietly fun left => .ite ?_ (.pure _)
      exact (deliverError_quiet _ _ _ _ _ _).bind fun _ => (setErrorInfo_quiet _).bind fun _ =>
        .pure _
    · exact (program29xxx_issues fuel locals.dw _).quietly fun _ => .pure _

/-- After a program round the loop goes on only while tries are left. -/
theorem programRound_result (pba : Memory) (current : ProgramLocals)
    (state : FlashState (σ × List Cycle)) :
    (programRound bus.traced fuel pof pba current).Ensures state (fun _ => True) fun ended _ =>
      ended.Ends (fun next => next.position = programRule.retried current.position ∧
        (programRule.retried current.position).counter.left ≠ 0) fun _ => True := by
  have moved := current.position_countRetry
  have left : (programRule.retried current.position).counter.left =
      current.countRetry.nCountProgramRetries := congrArg (·.counter.left) moved.symm
  unfold programRound
  rw [← moved]
  dsimp only
  split
  · exact (ensures_true _ _).andThen fun _ _ _ => (ensures_true _ _).andThen fun _ _ _ => trivial
  next tries =>
    split
    · refine (ensures_true _ _).andThen fun left _ _ => ?_
      split
      · exact (ensures_true _ _).andThen fun _ _ _ => trivial
      · exact ⟨rfl, tries⟩
    · exact (ensures_true _ _).andThen fun _ _ _ => ⟨rfl, tries⟩

/-- The program loop goes on by one address, and leaves its count as it is. -/
theorem programAdvance_result (locals : ProgramLocals) (state : FlashState (σ × List Cycle)) :
    (programAdvance pof locals).Ensures state (fun _ => True) fun ended _ =>
      ended.Ends (fun next => next.position = RetryRule.advanced locals.position)
        fun _ => True := by
  refine (ensures_true _ _).andThen fun accepted _ _ => ?_
  cases accepted with
  | true => rfl
  | false => trivial

/-- A pass of the program loop goes on where the byte is right, and else tries as the rule
allows. -/
theorem programPass_follows (pba : Memory) :
    Follows programRule ProgramLocals.position (programPass bus.traced fuel pof pba) where
  finished locals done := if_pos done
  working locals more := by
    have pass : locals.dwLen ≠ 0 := more
    unfold programPass
    rw [if_neg pass]
    refine looked locals.position fun b => Emits.ite (fun _ => ?_) fun _ => ?_
    · exact ended_round (programRound_issues pba locals) (programRound_result pba locals)
    · refine ended_advance ?_ (programAdvance_result locals)
      refine (deliverUpdate_quiet _ _ _ _ _).bind fun accepted => ?_
      cases accepted with
      | true => exact .pure _
      | false => exact .pure _

/-! ## Verifying -/

/-- Reporting an error reads the flash, and writes nothing to it. -/
theorem verifyError_quiet (dw : UInt32) (value : Byte) :
    Quiet dw.toNat (verifyError bus.traced pof dw value) := by
  unfold verifyError
  cases pof.pcallbackFlash with
  | none => exact .pure ()
  | some _ =>
      refine (readFlash_quiet bus dw).bind fun b => (deliver_quiet _ _ _ _).bind fun accepted => ?_
      cases accepted with
      | true => exact (deliver_quiet _ _ _ _).bind fun _ => .pure ()
      | false => exact .pure ()

/-- A pass of the verify loop goes on by one address or ends; it tries nothing. -/
theorem verifyPass_follows (pba : Memory) :
    Follows verifyRule VerifyLocals.position (verifyPass bus.traced pof pba) where
  finished locals done := if_pos done
  working locals more := by
    have pass : locals.dwLen ≠ 0 := more
    unfold verifyPass
    rw [if_neg pass]
    refine looked locals.position fun b => Emits.ite (fun _ => ?_) fun _ => ?_
    · exact ended_advance ((verifyError_quiet _ _).bind fun _ => .pure _) fun state =>
        (ensures_true _ _).andThen fun _ _ _ => trivial
    · exact ended_advance (.pure _) fun state => rfl

/-! ## Polling -/

/-- One write is no loop. -/
theorem writeFlash_returns (address : UInt32) (value : Byte) :
    Returns (writeFlash bus address value) := .update _

/-- The text of an error is only stored. -/
theorem setErrorInfo_returns (text : String) : Returns (setErrorInfo (σ := σ) text) := .update _

/-- The callback is one call. -/
theorem deliver_returns (ee : EnumEvents) (dwPos dwExtent : UInt32) :
    Returns (deliver (σ := σ) pof ee dwPos dwExtent) := by
  unfold deliver
  cases pof.pcallbackFlash with
  | none => exact .pure true
  | some _ => exact .update _

/-- Reporting an error is no loop. -/
theorem deliverError_returns (dw : UInt32) (ee eeEnd : EnumEvents) (dwPos : UInt32)
    (dwExtent : Byte → UInt32) :
    Returns (deliverError bus pof dw ee eeEnd dwPos dwExtent) := by
  unfold deliverError
  cases pof.pcallbackFlash with
  | none => exact .pure ()
  | some _ =>
      exact .bind (.update _) fun b => (deliver_returns _ _ _).bind fun _ =>
        (deliver_returns _ _ _).bind fun _ => .pure ()

/-- Nor is reporting progress. -/
theorem deliverUpdate_returns (dw : UInt32) (ee : EnumEvents) (dwPos : UInt32) (aborted : String) :
    Returns (deliverUpdate (σ := σ) pof dw ee dwPos aborted) := by
  unfold deliverUpdate
  refine .ite ((deliver_returns _ _ _).bind fun accepted => ?_) (.pure true)
  cases accepted with
  | true => exact .pure true
  | false => exact (setErrorInfo_returns aborted).bind fun _ => .pure false

/-- The unlock cycles are single writes. -/
theorem unlock_returns : Returns (unlock bus) :=
  (writeFlash_returns _ _).bind fun _ => writeFlash_returns _ _

/-- So is a reset. -/
theorem resetCommand_returns : Returns (resetCommand bus) :=
  unlock_returns.bind fun _ => writeFlash_returns _ _

/-- So is an erase command. -/
theorem eraseCommand_returns (dw : UInt32) (code : Byte) : Returns (eraseCommand bus dw code) :=
  unlock_returns.bind fun _ => (writeFlash_returns _ _).bind fun _ =>
    unlock_returns.bind fun _ => writeFlash_returns _ _

/-- Polling for the toggle bit is the one loop here that only the flash can end. -/
theorem pollToggle_waits (dw : UInt32) : Waits fuel (pollToggle bus.traced fuel dw) := by
  refine Waits.bind (.of_returns (.update _)) fun b => Waits.poll dw.toNat fuel ?_ _
  rintro ⟨b, dwCountTries⟩ state
  refine ensures_bind.mpr (ensures_update.mpr ?_)
  exact ensures_ite.mpr ⟨fun _ => rfl, fun _ => trivial⟩

/-- A 28xxx erase may wait for the status of the chip. -/
theorem erase28xxx_waits (dw : UInt32) : Waits fuel (erase28xxx bus.traced fuel dw) := by
  have write : ∀ address value, Waits fuel (writeFlash bus.traced address value) :=
    fun address value => .of_returns (writeFlash_returns address value)
  refine (write _ _).bind fun _ => (write _ _).bind fun _ => (write _ _).bind fun _ =>
    Waits.bind (Waits.poll dw.toNat fuel ?_ _) fun b => (write _ _).bind fun _ =>
      (write _ _).bind fun _ => .of_returns (.pure b)
  rintro ⟨b, nCountMinSpin⟩ state
  exact ensures_ite.mpr ⟨fun _ => ensures_bind.mpr rfl, fun _ => trivial⟩

/-- A 28xxx program command may wait for the status of the chip. -/
theorem program28xxx_waits (dw : UInt32) (value : Byte) :
    Waits fuel (program28xxx bus.traced fuel dw value) := by
  have write : ∀ address value, Waits fuel (writeFlash bus.traced address value) :=
    fun address value => .of_returns (writeFlash_returns address value)
  refine (write _ _).bind fun _ => (write _ _).bind fun _ =>
    Waits.bind (Waits.poll dw.toNat fuel ?_ _) fun left => (write _ _).bind fun _ =>
      (write _ _).bind fun _ => .of_returns (.pure _)
  rintro ⟨b, dwTimeToLive, nCountMinSpin⟩ state
  exact ensures_ite.mpr ⟨fun _ => ensures_bind.mpr rfl, fun _ => trivial⟩

/-- A 29xxx erase may wait for the toggle bit. -/
theorem erase29xxx_waits (dw : UInt32) (nCountEraseRetryIn4KBlock : Int) :
    Waits fuel (erase29xxx bus.traced fuel pof dw nCountEraseRetryIn4KBlock) := by
  have command : ∀ place code, Waits fuel (eraseCommand bus.traced place code) :=
    fun place code => .of_returns (eraseCommand_returns place code)
  have reset : Waits fuel (resetCommand bus.traced) := .of_returns resetCommand_returns
  refine Waits.bind ((command dw 0x50).bind fun _ => (pollToggle_waits dw).bind fun _ => .ite
    (reset.bind fun _ => (command dw 0x30).bind fun _ => pollToggle_waits dw)
    (.of_returns (.pure _))) fun _ => .ite ?_ (.of_returns (.pure ()))
  exact reset.bind fun _ => (command 0x5555 0x10).bind fun _ => (pollToggle_waits dw).bind fun _ =>
    .of_returns (.pure ())

/-- A 29xxx program command may wait for the toggle bit. -/
theorem program29xxx_waits (dw : UInt32) (value : Byte) :
    Waits fuel (program29xxx bus.traced fuel dw value) :=
  Waits.bind (.of_returns unlock_returns) fun _ =>
    Waits.bind (.of_returns (writeFlash_returns _ _)) fun _ =>
      Waits.bind (.of_returns (writeFlash_returns _ _)) fun _ =>
        (pollToggle_waits dw).bind fun _ => .of_returns (.pure ())

/-- A pass of the erase loop returns unless it waits for the chip. -/
theorem erasePass_waits (locals : EraseLocals) :
    Waits fuel (erasePass bus.traced fuel pof locals) := by
  refine .ite (.of_returns (.pure _)) (Waits.bind (.of_returns (.update _)) fun b => .ite ?_ ?_)
  · refine .ite ?_ (.ite ?_ ?_)
    · exact .of_returns ((deliverError_returns _ _ _ _ _).bind fun _ => .bind (.update _) fun _ =>
        (setErrorInfo_returns _).bind fun _ => .pure _)
    · refine (erase28xxx_waits _).bind fun b => .ite (.of_returns ?_) (.of_returns (.pure _))
      exact (deliverError_returns _ _ _ _ _).bind fun _ => (setErrorInfo_returns _).bind fun _ =>
        .pure _
    · exact (erase29xxx_waits _ _).bind fun _ => .of_returns (.pure _)
  · refine .of_returns ((deliverUpdate_returns _ _ _ _).bind fun accepted => ?_)
    cases accepted with
    | true => exact .pure _
    | false => exact .pure _

/-- A pass of the program loop returns unless it waits for the chip. -/
theorem programPass_waits (pba : Memory) (locals : ProgramLocals) :
    Waits fuel (programPass bus.traced fuel pof pba locals) := by
  refine .ite (.of_returns (.pure _)) (Waits.bind (.of_returns (.update _)) fun b => .ite ?_ ?_)
  · refine .ite ?_ (.ite ?_ ?_)
    · exact .of_returns ((deliverError_returns _ _ _ _ _).bind fun _ => .bind (.update _) fun _ =>
        (setErrorInfo_returns _).bind fun _ => .pure _)
    · refine (program28xxx_waits _ _).bind fun left => .ite (.of_returns ?_) (.of_returns (.pure _))
      exact (deliverError_returns _ _ _ _ _).bind fun _ => (setErrorInfo_returns _).bind fun _ =>
        .pure _
    · exact (program29xxx_waits _ _).bind fun _ => .of_returns (.pure _)
  · refine .of_returns ((deliverUpdate_returns _ _ _ _).bind fun accepted => ?_)
    cases accepted with
    | true => exact .pure _
    | false => exact .pure _

/-- A pass of the verify loop always returns. -/
theorem verifyPass_returns (pba : Memory) (locals : VerifyLocals) :
    Returns (verifyPass bus pof pba locals) := by
  refine .ite (.pure _) (.bind (.update _) fun b => .ite (.bind ?_ fun _ => .pure _) (.pure _))
  unfold verifyError
  cases pof.pcallbackFlash with
  | none => exact .pure ()
  | some _ =>
      refine .bind (.update _) fun b => (deliver_returns _ _ _).bind fun accepted => ?_
      cases accepted with
      | true => exact (deliver_returns _ _ _).bind fun _ => .pure ()
      | false => exact .pure ()

end Driver

end Cromwell.Flash
