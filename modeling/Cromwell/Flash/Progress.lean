import Cromwell.Flash.BootFlash
import Cromwell.Std.Trace

/-!
# What the callback is told

Whatever the flash does, the trace of one phase of the work is a start event, the
updates of the positions passed, and then an end: the phase is through, an event
was refused, or the chip failed. Only in the last case do the end events come
without a question to the callback.
-/

namespace Cromwell.Flash

open Cromwell.Std

/-- The end event that belongs to a start event. -/
def EnumEvents.matchingEnd : EnumEvents → Option EnumEvents
  | .eraseStart => some .eraseEnd
  | .programStart => some .programEnd
  | .verifyStart => some .verifyEnd
  | _ => none

/-- Every start event is followed by its end event. -/
def Bracketed (trace : List Event) : Prop :=
  Closed (fun event => event.ee.matchingEnd ≠ none)
    (fun event answer => event.ee.matchingEnd = some answer.ee) trace

/-! ## The callback -/

/-- What the callback has been told at the end of a history; without a callback no
event is delivered. -/
def ObjectFlash.told (pof : ObjectFlash) (history : List Event) : List Event :=
  match pof.pcallbackFlash with
  | none => []
  | some _ => history

/-- Whether the work goes on after a history. -/
def ObjectFlash.accepts (pof : ObjectFlash) (history : List Event) : Bool :=
  match pof.pcallbackFlash with
  | none => true
  | some pcallbackFlash => pcallbackFlash history

variable {pof : ObjectFlash}

/-- Only a callback refuses. -/
theorem told_of_refused {history : List Event} (refused : pof.accepts history = false) :
    pof.told history = history := by
  unfold ObjectFlash.accepts at refused
  unfold ObjectFlash.told
  generalize pof.pcallbackFlash = callback at refused
  cases callback with
  | none => cases refused
  | some _ => rfl

theorem bracketed_told {history : List Event} (bracketed : Bracketed history) :
    Bracketed (pof.told history) := by
  unfold ObjectFlash.told
  cases pof.pcallbackFlash with
  | none => exact trivial
  | some _ => exact bracketed

section Driver

variable {σ : Type} {bus : FlashBus σ} {state : FlashState σ} {cut : FlashState σ → Prop}
  {history : List Event} {fuel : Nat} {dw : UInt32}

/-- An event extends the history, and the callback answers to all of it. -/
theorem deliver_told {ee : EnumEvents} {dwPos dwExtent : UInt32}
    (told : state.events = pof.told history) :
    (deliver pof ee dwPos dwExtent).Ensures state cut fun accepted after =>
      after.flash = state.flash ∧ after.events = pof.told (history ++ [⟨ee, dwPos, dwExtent⟩]) ∧
        accepted = pof.accepts (history ++ [⟨ee, dwPos, dwExtent⟩]) := by
  unfold ObjectFlash.told at told ⊢
  unfold deliver ObjectFlash.accepts
  generalize pof.pcallbackFlash = callback at told
  cases callback with
  | none => exact ⟨rfl, told, rfl⟩
  | some pcallbackFlash =>
      dsimp only at told ⊢
      rw [← told]
      exact ⟨rfl, rfl, rfl⟩

/-- A read answers with what is on the bus. -/
theorem readFlash_told :
    (readFlash bus dw).Ensures state cut fun b after =>
      b = (bus.read state.flash dw.toNat).1 ∧ after.events = state.events ∧
        after.flash = (bus.read state.flash dw.toNat).2 := ⟨rfl, rfl, rfl⟩

theorem setErrorInfo_told {text : String} :
    (setErrorInfo text).Ensures state cut fun _ after =>
      after.events = state.events ∧ after.flash = state.flash := ⟨rfl, rfl⟩

/-! ## Steps that tell nothing -/

/-- The step delivers no event. -/
def Silent {α : Type} (step : Driver σ α) : Prop := Program.Keeps FlashState.events step

theorem Silent.ensures {α : Type} {step : Driver σ α} (silent : Silent step)
    (state : FlashState σ) :
    step.Ensures state (fun _ => True) fun _ after => after.events = state.events :=
  (silent state).mono (fun _ _ => trivial) fun _ _ same => same

theorem readFlash_silent : Silent (readFlash bus dw) := fun _ => rfl

theorem writeFlash_silent {value : Byte} : Silent (writeFlash bus dw value) := fun _ => rfl

theorem unlock_silent : Silent (unlock bus) :=
  writeFlash_silent.bind fun _ => writeFlash_silent

theorem resetCommand_silent : Silent (resetCommand bus) :=
  unlock_silent.bind fun _ => writeFlash_silent

theorem eraseCommand_silent {code : Byte} : Silent (eraseCommand bus dw code) :=
  unlock_silent.bind fun _ => writeFlash_silent.bind fun _ =>
    unlock_silent.bind fun _ => writeFlash_silent

theorem pollToggle_silent : Silent (pollToggle bus fuel dw) := by
  refine readFlash_silent.bind fun b => Program.Keeps.loop ?_ _ _
  intro locals
  exact readFlash_silent.bind fun again => .ite (.pure _) (.pure _)

theorem eraseBlock_silent : Silent (eraseBlock bus fuel dw) := by
  refine eraseCommand_silent.bind fun _ => pollToggle_silent.bind fun dwCountTries => .ite ?_ ?_
  · exact resetCommand_silent.bind fun _ => eraseCommand_silent.bind fun _ => pollToggle_silent
  · exact .pure _

theorem erase29xxx_silent {nCountEraseRetryIn4KBlock : Int} :
    Silent (erase29xxx bus fuel pof dw nCountEraseRetryIn4KBlock) := by
  refine eraseBlock_silent.bind fun dwCountTries => .ite ?_ (.pure _)
  exact resetCommand_silent.bind fun _ => eraseCommand_silent.bind fun _ =>
    pollToggle_silent.bind fun _ => .pure _

theorem program29xxx_silent {value : Byte} : Silent (program29xxx bus fuel dw value) :=
  unlock_silent.bind fun _ => writeFlash_silent.bind fun _ => writeFlash_silent.bind fun _ =>
    pollToggle_silent.bind fun _ => .pure _

theorem erase28xxx_silent : Silent (erase28xxx bus fuel dw) := by
  refine writeFlash_silent.bind fun _ => writeFlash_silent.bind fun _ =>
    writeFlash_silent.bind fun _ => Program.Keeps.bind (.loop ?_ _ _) fun b =>
      writeFlash_silent.bind fun _ => writeFlash_silent.bind fun _ => .pure b
  intro locals
  exact .ite (readFlash_silent.bind fun _ => .pure _) (.pure _)

theorem program28xxx_silent {value : Byte} : Silent (program28xxx bus fuel dw value) := by
  refine writeFlash_silent.bind fun _ => writeFlash_silent.bind fun _ =>
    Program.Keeps.bind (.loop ?_ _ _) fun left =>
      writeFlash_silent.bind fun _ => writeFlash_silent.bind fun _ => .pure _
  intro locals
  exact .ite (readFlash_silent.bind fun _ => .pure _) (.pure _)

end Driver

/-! ## Phases -/

/-- The events of erasing or of programming. -/
structure Phase where
  start : EnumEvents
  update : EnumEvents
  error : EnumEvents
  finish : EnumEvents
  matching : start.matchingEnd = some finish
  neutral : ∀ ee ∈ [update, error, finish], ee.matchingEnd = none
  distinct : update ≠ finish

def erasePhase : Phase where
  start := .eraseStart
  update := .eraseUpdate
  error := .eraseError
  finish := .eraseEnd
  matching := rfl
  neutral := by decide
  distinct := by decide

def programPhase : Phase where
  start := .programStart
  update := .programUpdate
  error := .programError
  finish := .programEnd
  matching := rfl
  neutral := by decide
  distinct := by decide

namespace Phase

variable (phase : Phase) (pof : ObjectFlash)

/-- The updates of the first `count` positions of the region, one every 1K addresses. -/
def updates : (count : Nat) → List Event
  | 0 => []
  | count + 1 =>
    if (pof.dwStartOffset + UInt32.ofNat count) &&& 0x3ff = 0 then
      updates count ++ [⟨phase.update, UInt32.ofNat count, pof.dwLengthUsedArea⟩]
    else
      updates count

/-- The history of a phase that has passed the first `count` positions. -/
def history (count : Nat) : List Event := ⟨phase.start, 0, 0⟩ :: phase.updates pof count

/-- The callback accepts the start event and every update of the first `count` positions. -/
def Accepted (count : Nat) : Prop := ∀ n ≤ count, pof.accepts (phase.history pof n) = true

/-- The phase has passed the first `count` positions. -/
structure Passed (count : Nat) (events : List Event) : Prop where
  told : events = pof.told (phase.history pof count)
  accepted : phase.Accepted pof count

/-- The callback has just refused to go on. -/
def Refused (events : List Event) : Prop :=
  ∃ n ≤ pof.dwLengthUsedArea.toNat, events = pof.told (phase.history pof n) ∧
    pof.accepts (phase.history pof n) = false

/-- The chip has failed, and the end of the phase was reported with the error. -/
def Failed (events : List Event) : Prop :=
  ∃ n dwPos dwExtent, events = pof.told
    (phase.history pof n ++ [⟨phase.error, dwPos, dwExtent⟩, ⟨phase.finish, 0, 0⟩])

end Phase

variable {phase : Phase}

theorem updates_kind {count : Nat} :
    ∀ event ∈ phase.updates pof count, event.ee = phase.update := by
  induction count with
  | zero => exact fun _ member => nomatch member
  | succ count ih =>
      intro event member
      unfold Phase.updates at member
      split at member
      · rcases List.mem_append.mp member with earlier | last
        · exact ih event earlier
        · rw [List.mem_singleton.mp last]
      · exact ih event member

/-- A phase that reports its end is bracketed, if what follows is. -/
theorem bracketed_history (phase : Phase) {count : Nat} {rest : List Event}
    (bracketed : Bracketed rest)
    (ended : ∃ answer ∈ rest, answer.ee = phase.finish) :
    Bracketed (phase.history pof count ++ rest) := by
  refine closed_bracket (closed_of_neutral ?_) bracketed ?_
  · intro event member opened
    rw [updates_kind event member] at opened
    exact opened (phase.neutral _ (by simp))
  · obtain ⟨answer, member, same⟩ := ended
    exact ⟨answer, member, by rw [same]; exact phase.matching⟩

/-- A refused start or update leaves the phase without its end. -/
theorem Phase.Refused.not_bracketed {events : List Event} (refused : phase.Refused pof events) :
    ¬ Bracketed events := by
  obtain ⟨n, _, told, answer⟩ := refused
  rw [told, told_of_refused answer]
  refine not_closed [] ?_ ?_
  · rw [phase.matching]
    nofun
  · intro event member closes
    rw [phase.matching, updates_kind event member] at closes
    injection closes with same
    exact phase.distinct same.symm

theorem Phase.Failed.bracketed {events : List Event} (failed : phase.Failed pof events) :
    Bracketed events := by
  obtain ⟨n, dwPos, dwExtent, told⟩ := failed
  rw [told]
  refine bracketed_told (bracketed_history phase (closed_of_neutral ?_)
    ⟨⟨phase.finish, 0, 0⟩, by simp, rfl⟩)
  intro event member opened
  refine opened (phase.neutral event.ee ?_)
  simp only [List.mem_cons, List.not_mem_nil, or_false] at member
  rcases member with rfl | rfl <;> simp

section Driver

variable {σ : Type} {bus : FlashBus σ} {state : FlashState σ} {cut : FlashState σ → Prop}
  {dw : UInt32} {count : Nat}

/-- A failed chip reports its error and the end of the phase. -/
theorem deliverError_failed {dwPos : UInt32} {dwExtent : Byte → UInt32}
    (told : state.events = pof.told (phase.history pof count)) :
    (deliverError bus pof dw phase.error phase.finish dwPos dwExtent).Ensures state cut
      fun _ after => phase.Failed pof after.events := by
  unfold deliverError
  cases callback : pof.pcallbackFlash with
  | none =>
      refine ⟨count, 0, 0, ?_⟩
      rw [told]
      simp [ObjectFlash.told, callback]
  | some _ =>
      refine readFlash_told.andThen ?_
      rintro b read ⟨-, same, -⟩
      rw [← same] at told
      refine (deliver_told told).andThen ?_
      rintro _ reported ⟨-, told, -⟩
      refine (deliver_told told).andThen ?_
      rintro _ ended ⟨-, told, -⟩
      refine ⟨count, dwPos, dwExtent b, ?_⟩
      rw [List.append_assoc] at told
      exact told

/-- An update takes the phase past a position, unless it is refused. -/
theorem deliverUpdate_passed {aborted : String} (passed : phase.Passed pof count state.events)
    (position : dw = pof.dwStartOffset + UInt32.ofNat count)
    (more : count < pof.dwLengthUsedArea.toNat) :
    (deliverUpdate pof dw phase.update (UInt32.ofNat count) aborted).Ensures state cut
      fun accepted after => after.flash = state.flash ∧
        if accepted then phase.Passed pof (count + 1) after.events
        else phase.Refused pof after.events := by
  unfold deliverUpdate
  rw [position]
  split
  next due =>
    have history : phase.history pof (count + 1) = phase.history pof count ++
        [⟨phase.update, UInt32.ofNat count, pof.dwLengthUsedArea⟩] := by
      rw [Phase.history, Phase.updates, if_pos due]
      rfl
    refine (deliver_told passed.told).andThen ?_
    rw [← history]
    rintro answer after ⟨same, told, rfl⟩
    cases answer : pof.accepts (phase.history pof (count + 1)) with
    | true =>
        refine ⟨same, told, fun n le => ?_⟩
        rcases Nat.le_succ_iff.mp le with earlier | now
        · exact passed.accepted n earlier
        · rw [now]
          exact answer
    | false => exact ⟨same, count + 1, more, told, answer⟩
  next skipped =>
    have history : phase.history pof (count + 1) = phase.history pof count := by
      rw [Phase.history, Phase.updates, if_neg skipped]
      rfl
    refine ⟨rfl, ?_, fun n le => ?_⟩
    · rw [history]
      exact passed.told
    · rcases Nat.le_succ_iff.mp le with earlier | now
      · exact passed.accepted n earlier
      · rw [now, history]
        exact passed.accepted count (Nat.le_refl count)

end Driver

end Cromwell.Flash
