import Mathlib.Data.Set.NAry
import Cromwell.Flash.BootFlash
import Cromwell.Std.Emission

/-!
# What the driver does on the bus

A traced bus answers as the bus it stands for, and records every cycle. Each erase
round and each programming of a byte then shows as a fixed sequence of writes, and
every read is at the address at work.
-/

namespace Cromwell.Flash

open Cromwell.Std Cromwell.Std.Program

/-- An access to the flash. -/
inductive Cycle where
  | read (address : Nat)
  | write (address : Nat) (value : Byte)
  deriving Repr, DecidableEq

/-- The writes of a trace. -/
def writes (cycles : List Cycle) : List (Nat × Byte) :=
  cycles.filterMap fun
    | .read _ => none
    | .write address value => some (address, value)

/-- The addresses that a trace reads. -/
def reads (cycles : List Cycle) : List Nat :=
  cycles.filterMap fun
    | .read address => some address
    | .write _ _ => none

/-- The writes of two parts follow each other. -/
@[simp] theorem writes_append (first second : List Cycle) :
    writes (first ++ second) = writes first ++ writes second := List.filterMap_append

/-- The reads of two parts follow each other. -/
@[simp] theorem reads_append (first second : List Cycle) :
    reads (first ++ second) = reads first ++ reads second := List.filterMap_append

/-- The bus with a record of its cycles. -/
def FlashBus.traced {σ : Type} (bus : FlashBus σ) : FlashBus (σ × List Cycle) where
  read recorded address :=
    let (value, chip) := bus.read recorded.1 address
    (value, (chip, recorded.2 ++ [.read address]))
  write recorded address value :=
    (bus.write recorded.1 address value, recorded.2 ++ [.write address value])

/-- The cycles so far. -/
def FlashState.cycles {σ : Type} (state : FlashState (σ × List Cycle)) : List Cycle :=
  state.flash.2

/-! ## Operations -/

/-- An erase round, or the programming of a byte. A round of the 29xxx conventions may go on to
the other erase command, and then to the erase of the whole chip. -/
inductive Operation where
  | erase28xxx (address : Nat)
  | erase29xxx (address : Nat) (alternate wholeChip : Bool)
  | program28xxx (address : Nat) (value : Byte)
  | program29xxx (address : Nat) (value : Byte)
  deriving Repr, DecidableEq

/-- The unlock cycles. -/
def unlockCycles : List (Nat × Byte) := [(0x5555, 0xaa), (0x2aaa, 0x55)]

/-- The cycles of a 29xxx reset. -/
def resetCycles : List (Nat × Byte) := unlockCycles ++ [(0x5555, 0xf0)]

/-- The cycles of a 29xxx erase command. -/
def eraseCycles (address : Nat) (code : Byte) : List (Nat × Byte) :=
  unlockCycles ++ ([(0x5555, 0x80)] ++ (unlockCycles ++ [(address, code)]))

/-- What may follow an erase command that the chip did not take. -/
def further (more : Bool) (address : Nat) (code : Byte) : List (Nat × Byte) :=
  if more then resetCycles ++ eraseCycles address code else []

namespace Operation

/-- The address an operation is for. -/
def address : Operation → Nat
  | erase28xxx address => address
  | erase29xxx address _ _ => address
  | program28xxx address _ => address
  | program29xxx address _ => address

/-- The operation erases. -/
def isErase : Operation → Bool
  | erase28xxx _ => true
  | erase29xxx _ _ _ => true
  | _ => false

/-- The writes of an operation. -/
def cycles : Operation → List (Nat × Byte)
  | erase28xxx address =>
    [(0x5555, 0x50), (address, 0x20), (address, 0xd0), (0x5555, 0x50), (0x5555, 0xff)]
  | erase29xxx address alternate wholeChip =>
    eraseCycles address 0x50 ++ (further alternate address 0x30 ++ further wholeChip 0x5555 0x10)
  | program28xxx address value =>
    [(address, 0x40), (address, value), (address, 0x50), (address, 0xff)]
  | program29xxx address value => unlockCycles ++ [(0x5555, 0xa0), (address, value)]

end Operation

/-! ## Steps that work at one address -/

section Steps

variable {σ : Type} {α β : Type} {bus : FlashBus σ} {address : Nat}
  {sequences sequences' : Set (List (Nat × Byte))}

/-- Whatever reads the trace holds are at the address. -/
def ReadsAt (address : Nat) (cycles : List Cycle) : Prop := ∀ other ∈ reads cycles, other = address

/-- Reads stay at an address when more of them follow. -/
theorem ReadsAt.append {first second : List Cycle} (here : ReadsAt address first)
    (there : ReadsAt address second) : ReadsAt address (first ++ second) := by
  intro other member
  rw [reads_append] at member
  exact (List.mem_append.mp member).elim (here other) (there other)

/-- The step reads at one address, and issues one of the given sequences of writes; where it is
cut off, the beginning of one. -/
def Issues (address : Nat) (sequences : Set (List (Nat × Byte)))
    (step : Driver (σ × List Cycle) α) : Prop :=
  Emits FlashState.cycles step
    (fun cycles => ReadsAt address cycles ∧ ∃ sequence ∈ sequences, writes cycles <+: sequence)
    fun _ cycles => ReadsAt address cycles ∧ writes cycles ∈ sequences

/-- What issues one of some sequences issues one of more. -/
theorem Issues.mono {step : Driver (σ × List Cycle) α} (issues : Issues address sequences step)
    (larger : sequences ⊆ sequences') : Issues address sequences' step := by
  refine Emits.mono issues ?_ ?_
  · rintro cycles ⟨here, sequence, member, front⟩
    exact ⟨here, sequence, larger member, front⟩
  · rintro _ cycles ⟨here, member⟩
    exact ⟨here, larger member⟩

/-- A result issues nothing. -/
theorem Issues.pure (result : α) : Issues (σ := σ) address {[]} (pure result) :=
  Emits.pure ⟨fun _ member => absurd member List.not_mem_nil, rfl⟩

/-- A sequence, and then another one. -/
theorem Issues.bind {step : Driver (σ × List Cycle) α} {rest : α → Driver (σ × List Cycle) β}
    (first : Issues address sequences step)
    (second : ∀ result, Issues address sequences' (rest result)) (some : sequences'.Nonempty) :
    Issues address (Set.image2 (· ++ ·) sequences sequences') (step >>= rest) := by
  obtain ⟨last, possible⟩ := some
  refine Emits.andThen (Emits.mono first ?_ fun _ _ held => held) ?_
  · rintro cycles ⟨here, sequence, member, front⟩
    exact ⟨here, sequence ++ last, ⟨sequence, member, last, possible, rfl⟩,
      front.trans (List.prefix_append sequence last)⟩
  · rintro result cycles ⟨here, member⟩
    refine Emits.mono (second result) ?_ ?_
    · rintro later ⟨there, sequence, member', front⟩
      refine ⟨here.append there, writes cycles ++ sequence,
        ⟨writes cycles, member, sequence, member', rfl⟩, ?_⟩
      rw [writes_append]
      exact (List.prefix_append_right_inj _).mpr front
    · rintro _ later ⟨there, member'⟩
      refine ⟨here.append there, ?_⟩
      rw [writes_append]
      exact ⟨writes cycles, member, writes later, member', rfl⟩

/-- A sequence that is known, and then another one. -/
theorem Issues.andThen {step : Driver (σ × List Cycle) α} {rest : α → Driver (σ × List Cycle) β}
    {first second : List (Nat × Byte)} (issues : Issues address {first} step)
    (more : ∀ result, Issues address {second} (rest result)) :
    Issues address {first ++ second} (step >>= rest) := by
  refine (issues.bind more (Set.singleton_nonempty second)).mono ?_
  rw [Set.image2_singleton]

/-- Either branch issues what the whole is said to. -/
theorem Issues.ite {condition : Prop} [Decidable condition] {step other : Driver (σ × List Cycle) α}
    (first : condition → Issues address sequences step)
    (second : ¬condition → Issues address sequences other) :
    Issues address sequences (if condition then step else other) :=
  Emits.ite first second

/-- The step only reads, at one address. -/
abbrev Quiet (address : Nat) (step : Driver (σ × List Cycle) α) : Prop :=
  EmitsOnly FlashState.cycles (· = .read address) step

/-- What writes nothing issues the empty sequence. -/
theorem Quiet.issues {step : Driver (σ × List Cycle) α} (quiet : Quiet address step) :
    Issues address {[]} step := by
  have nothing : ∀ cycles : List Cycle, (∀ cycle ∈ cycles, cycle = .read address) →
      ReadsAt address cycles ∧ writes cycles = [] := by
    intro cycles only
    constructor
    · intro other member
      obtain ⟨cycle, inside, shown⟩ := List.mem_filterMap.mp member
      rw [only cycle inside] at shown
      exact (Option.some.inj shown).symm
    · rw [writes, List.filterMap_eq_nil_iff]
      intro cycle inside
      rw [only cycle inside]
  refine Emits.mono quiet ?_ ?_
  · intro cycles only
    obtain ⟨here, empty⟩ := nothing cycles only
    exact ⟨here, [], rfl, empty ▸ List.prefix_rfl⟩
  · intro _ cycles only
    exact nothing cycles only

/-- Reads in front of a sequence. -/
theorem Quiet.andThen {step : Driver (σ × List Cycle) α} {rest : α → Driver (σ × List Cycle) β}
    (quiet : Quiet address step) (more : ∀ result, Issues address sequences (rest result))
    (some : sequences.Nonempty) : Issues address sequences (step >>= rest) := by
  refine (quiet.issues.bind more some).mono ?_
  rw [Set.image2_singleton_left]
  rintro _ ⟨sequence, member, rfl⟩
  exact member

/-- A read is quiet. -/
theorem readFlash_quiet (bus : FlashBus σ) (dw : UInt32) :
    Quiet dw.toNat (readFlash bus.traced dw) :=
  EmitsOnly.update (fun _ => rfl) fun _ => rfl

/-- The text of an error is no access. -/
theorem setErrorInfo_quiet (text : String) : Quiet (σ := σ) address (setErrorInfo text) :=
  EmitsOnly.unchanged fun _ => rfl

/-- Nor is the callback. -/
theorem deliver_quiet (pof : ObjectFlash) (ee : EnumEvents) (dwPos dwExtent : UInt32) :
    Quiet (σ := σ) address (deliver pof ee dwPos dwExtent) := by
  unfold deliver
  cases pof.pcallbackFlash with
  | none => exact .pure true
  | some _ => exact EmitsOnly.unchanged fun _ => rfl

/-- An error is reported after one read. -/
theorem deliverError_quiet (pof : ObjectFlash) (dw : UInt32) (ee eeEnd : EnumEvents)
    (dwPos : UInt32) (dwExtent : Byte → UInt32) :
    Quiet dw.toNat (deliverError bus.traced pof dw ee eeEnd dwPos dwExtent) := by
  unfold deliverError
  cases pof.pcallbackFlash with
  | none => exact .pure ()
  | some _ =>
      exact (readFlash_quiet bus dw).bind fun b => (deliver_quiet _ _ _ _).bind fun _ =>
        (deliver_quiet _ _ _ _).bind fun _ => .pure ()

/-- Progress is reported without an access. -/
theorem deliverUpdate_quiet (pof : ObjectFlash) (dw : UInt32) (ee : EnumEvents) (dwPos : UInt32)
    (aborted : String) : Quiet (σ := σ) address (deliverUpdate pof dw ee dwPos aborted) := by
  unfold deliverUpdate
  refine .ite ((deliver_quiet _ _ _ _).bind fun accepted => ?_) (.pure true)
  cases accepted with
  | true => exact .pure true
  | false => exact (setErrorInfo_quiet aborted).bind fun _ => .pure false

/-- Polling reads one address only. -/
theorem pollToggle_quiet (fuel : Nat) (dw : UInt32) :
    Quiet dw.toNat (pollToggle bus.traced fuel dw) :=
  (readFlash_quiet bus dw).bind fun b => .loop
    (fun _ => (readFlash_quiet bus dw).bind fun _ => .ite (.pure _) (.pure _)) fuel (b, 0)

/-- A write issues itself. -/
theorem writeFlash_issues (place : UInt32) (value : Byte) :
    Issues address {[(place.toNat, value)]} (writeFlash bus.traced place value) := by
  refine Emits.update (fun _ => rfl) fun _ => ⟨?_, rfl⟩
  exact fun _ member => absurd member List.not_mem_nil

/-! ## Commands -/

/-- The unlock cycles are issued as they are. -/
theorem unlock_issues : Issues address {unlockCycles} (unlock bus.traced) :=
  (writeFlash_issues 0x5555 0xaa).andThen fun _ => writeFlash_issues 0x2aaa 0x55

/-- So is a reset. -/
theorem resetCommand_issues : Issues address {resetCycles} (resetCommand bus.traced) :=
  unlock_issues.andThen fun _ => writeFlash_issues 0x5555 0xf0

/-- So is an erase command. -/
theorem eraseCommand_issues (dw : UInt32) (code : Byte) :
    Issues address {eraseCycles dw.toNat code} (eraseCommand bus.traced dw code) :=
  unlock_issues.andThen fun _ => (writeFlash_issues 0x5555 0x80).andThen fun _ =>
    unlock_issues.andThen fun _ => writeFlash_issues dw code

/-- Another erase command, and the wait for its end. -/
theorem further_issues (place : UInt32) (code : Byte) {wait : Driver (σ × List Cycle) α}
    (quiet : Quiet address wait) :
    Issues address {cycles | ∃ more, cycles = further more place.toNat code} (do
      resetCommand bus.traced
      eraseCommand bus.traced place code
      wait) := by
  have issues : Issues address {resetCycles ++ (eraseCycles place.toNat code ++ [])} (do
      resetCommand bus.traced
      eraseCommand bus.traced place code
      wait) :=
    resetCommand_issues.andThen fun _ => (eraseCommand_issues place code).andThen fun _ =>
      quiet.issues
  refine issues.mono ?_
  rintro _ rfl
  exact ⟨true, by rw [further, if_pos rfl, List.append_nil]⟩

/-- A further command is issued or not. -/
theorem further_nonempty (place : UInt32) (code : Byte) :
    Set.Nonempty {cycles | ∃ more, cycles = further more place.toNat code} :=
  ⟨_, false, rfl⟩

/-- Nothing further is a way of going on. -/
theorem no_further (place : UInt32) (code : Byte) :
    ({[]} : Set (List (Nat × Byte))) ⊆
      {cycles | ∃ more, cycles = further more place.toNat code} := by
  rintro _ rfl
  exact ⟨false, rfl⟩

/-- A block is erased by one command, or by two where the first changed nothing. -/
theorem eraseBlock_issues (fuel : Nat) (dw : UInt32) :
    Issues dw.toNat
      {cycles | ∃ alternate, cycles = eraseCycles dw.toNat 0x50 ++ further alternate dw.toNat 0x30}
      (eraseBlock bus.traced fuel dw) := by
  have possible := further_nonempty dw 0x30
  refine Issues.mono (Issues.bind (eraseCommand_issues dw 0x50)
    (fun _ => Quiet.andThen (pollToggle_quiet fuel dw) (fun dwCountTries => Issues.ite
      (fun _ => further_issues dw 0x30 (pollToggle_quiet fuel dw))
      fun _ => (Issues.pure dwCountTries).mono (no_further dw 0x30)) possible) possible) ?_
  rintro _ ⟨first, rfl, _, ⟨alternate, rfl⟩, rfl⟩
  exact ⟨alternate, rfl⟩

/-! ## Operations of the loops -/

/-- The writes of the operations at an address that are of a kind. -/
def operationsAt (kind : Operation → Prop) (address : Nat) : Set (List (Nat × Byte)) :=
  {cycles | ∃ operation, kind operation ∧ operation.address = address ∧
    cycles = operation.cycles}

/-- What a 29xxx erase issues is an erase operation at its address. -/
theorem erase29xxx_issues (fuel : Nat) (pof : ObjectFlash) (dw : UInt32)
    (nCountEraseRetryIn4KBlock : Int) :
    Issues dw.toNat (operationsAt (·.isErase) dw.toNat)
      (erase29xxx bus.traced fuel pof dw nCountEraseRetryIn4KBlock) := by
  have possible := further_nonempty 0x5555 0x10
  refine Issues.mono (Issues.bind (eraseBlock_issues fuel dw) (fun _ => Issues.ite
    (fun _ => further_issues 0x5555 0x10 ((pollToggle_quiet fuel dw).bind fun _ => .pure ()))
    fun _ => (Issues.pure ()).mono (no_further 0x5555 0x10)) possible) ?_
  rintro _ ⟨_, ⟨alternate, rfl⟩, _, ⟨wholeChip, rfl⟩, rfl⟩
  exact ⟨.erase29xxx dw.toNat alternate wholeChip, rfl, rfl, List.append_assoc _ _ _⟩

/-- What a 28xxx erase issues is an erase operation at its address. -/
theorem erase28xxx_issues (fuel : Nat) (dw : UInt32) :
    Issues dw.toNat (operationsAt (·.isErase) dw.toNat) (erase28xxx bus.traced fuel dw) := by
  have issues : Issues dw.toNat {(Operation.erase28xxx dw.toNat).cycles}
      (erase28xxx bus.traced fuel dw) :=
    (writeFlash_issues 0x5555 0x50).andThen fun _ => (writeFlash_issues dw 0x20).andThen fun _ =>
      (writeFlash_issues dw 0xd0).andThen fun _ => Quiet.andThen
        (EmitsOnly.loop (fun _ => .ite ((readFlash_quiet bus dw).bind fun _ => .pure _) (.pure _))
          fuel (0x00, 0x100))
        (fun b => (writeFlash_issues 0x5555 0x50).andThen fun _ =>
          (writeFlash_issues 0x5555 0xff).andThen fun _ => .pure b) (Set.singleton_nonempty _)
  refine issues.mono ?_
  rintro _ rfl
  exact ⟨.erase28xxx dw.toNat, rfl, rfl, rfl⟩

/-- What a 28xxx program command issues is a program operation at its address. -/
theorem program28xxx_issues (fuel : Nat) (dw : UInt32) (value : Byte) :
    Issues dw.toNat (operationsAt (!·.isErase) dw.toNat)
      (program28xxx bus.traced fuel dw value) := by
  have issues : Issues dw.toNat {(Operation.program28xxx dw.toNat value).cycles}
      (program28xxx bus.traced fuel dw value) :=
    (writeFlash_issues dw 0x40).andThen fun _ => (writeFlash_issues dw value).andThen fun _ =>
      Quiet.andThen
        (EmitsOnly.loop (fun _ => .ite ((readFlash_quiet bus dw).bind fun _ => .pure _) (.pure _))
          fuel (0x0, 0xfffff, 2))
        (fun left => (writeFlash_issues dw 0x50).andThen fun _ =>
          (writeFlash_issues dw 0xff).andThen fun _ => .pure left) (Set.singleton_nonempty _)
  refine issues.mono ?_
  rintro _ rfl
  exact ⟨.program28xxx dw.toNat value, rfl, rfl, rfl⟩

/-- What a 29xxx program command issues is a program operation at its address. -/
theorem program29xxx_issues (fuel : Nat) (dw : UInt32) (value : Byte) :
    Issues dw.toNat (operationsAt (!·.isErase) dw.toNat)
      (program29xxx bus.traced fuel dw value) := by
  have issues : Issues dw.toNat {(Operation.program29xxx dw.toNat value).cycles}
      (program29xxx bus.traced fuel dw value) :=
    unlock_issues.andThen fun _ => (writeFlash_issues 0x5555 0xa0).andThen fun _ =>
      (writeFlash_issues dw value).andThen fun _ =>
        Quiet.andThen (pollToggle_quiet fuel dw) (fun _ => .pure ()) (Set.singleton_nonempty _)
  refine issues.mono ?_
  rintro _ rfl
  exact ⟨.program29xxx dw.toNat value, rfl, rfl, rfl⟩

end Steps

end Cromwell.Flash
