import Cromwell.Flash.Reflash
import Cromwell.Flash.Traces

/-!
# Start events and their end events

`BootFlash.h` promises an end event after every start event. The promise is kept
where the chip fails, and broken where the callback refuses to go on: a refused
start or update, and a refused verify start or verify error, is answered by
nothing more. So the promise holds for a callback exactly when it never refuses
one of those events.
-/

namespace Cromwell.Flash

open Cromwell.Std

variable {pof : ObjectFlash}

/-- The state in which a call starts, with no event delivered yet. -/
def callState {σ : Type} (flash : σ) : FlashState σ where
  flash := flash
  events := []
  szAdditionalErrorInfo := ""

/-- The callback accepts the start of the erase, and each of its updates. -/
def AcceptsErase (pof : ObjectFlash) : Prop :=
  erasePhase.Accepted pof pof.dwLengthUsedArea.toNat

/-- The callback accepts the start of the programming and each of its updates; and if
it accepts the end, it accepts the start of verifying and every verify error. -/
structure AcceptsProgram (pof : ObjectFlash) (pba : Memory) : Prop where
  programming : programPhase.Accepted pof pof.dwLengthUsedArea.toNat
  verifying : pof.accepts (programPhase.history pof pof.dwLengthUsedArea.toNat ++
      [⟨.programEnd, 0, 0⟩]) = true →
    pof.accepts (verifyHistory pof) = true ∧
      ∀ i < pof.dwLengthUsedArea.toNat, ∀ b,
        pof.accepts (verifyHistory pof ++ [verifyErrorEvent pof pba i b]) = true

/-- A phase the callback accepts is not refused. -/
theorem Phase.Refused.not_accepted {phase : Phase} {events : List Event}
    (refused : phase.Refused pof events) : ¬ phase.Accepted pof pof.dwLengthUsedArea.toNat := by
  obtain ⟨n, below, -, answer⟩ := refused
  intro accepted
  rw [accepted n below] at answer
  cases answer

section Driver

variable {σ : Type} {bus : FlashBus σ} {state : FlashState σ} {fuel : Nat} {pba : Memory}

/-! ## Traces of the callback's answers -/

/-- Starting a phase either passes no position yet, or is refused. -/
theorem deliver_start (phase : Phase) {cut : FlashState σ → Prop} (none : state.events = []) :
    (deliver pof phase.start 0 0).Ensures state cut fun accepted after =>
      after.flash = state.flash ∧ if accepted then phase.Passed pof 0 after.events
        else phase.Refused pof after.events := by
  have told : state.events = pof.told [] := by
    rw [none]
    unfold ObjectFlash.told
    cases pof.pcallbackFlash <;> rfl
  refine (deliver_told told).mono (fun _ held => held) ?_
  rintro accepted after ⟨same, told, answer⟩
  refine ⟨same, ?_⟩
  cases accepted with
  | true =>
      refine ⟨told, fun n le => ?_⟩
      rw [Nat.le_zero.mp le]
      exact answer.symm
  | false => exact ⟨0, Nat.zero_le _, told, answer.symm⟩

/-- On any flash an accepted erase is bracketed. -/
theorem bootFlashEraseMinimalRegion_told (accepts : AcceptsErase pof) (none : state.events = []) :
    (bootFlashEraseMinimalRegion bus fuel pof).Ensures state (fun _ => True)
      fun _ after => Bracketed after.events := by
  refine setErrorInfo_told.andThen ?_
  rintro _ cleared ⟨same, -⟩
  rw [← same] at none
  refine Program.Ensures.andThen (deliver_start erasePhase none) ?_
  rintro accepted started ⟨-, outcome⟩
  cases accepted with
  | false => exact absurd accepts outcome.not_accepted
  | true =>
      refine (eraseLoop_told outcome).andThen ?_
      intro erased looped outcome
      cases erased with
      | false =>
          rcases outcome with refused | failed
          · exact absurd accepts refused.not_accepted
          · exact failed.bracketed
      | true =>
          refine (deliver_told outcome.told).mono (fun _ held => held) ?_
          rintro answer after ⟨-, told, -⟩
          rw [told]
          exact bracketed_told (bracketed_history erasePhase ⟨nofun, trivial⟩
            ⟨_, List.mem_singleton_self _, rfl⟩)

/-- A blank flash takes an erase to its end or to the refusal. -/
theorem bootFlashEraseMinimalRegion_blank (enough : pof.dwLengthUsedArea.toNat < fuel) :
    (bootFlashEraseMinimalRegion (scriptBus fun _ => 0xff) fuel pof).Ensures (callState 0)
      (fun _ => False) fun _ after => AcceptsErase pof ∨ erasePhase.Refused pof after.events := by
  refine setErrorInfo_told.andThen ?_
  rintro _ cleared ⟨none, -⟩
  refine Program.Ensures.andThen (deliver_start erasePhase none) ?_
  rintro accepted started ⟨-, outcome⟩
  cases accepted with
  | false => exact .inr outcome
  | true =>
      refine (eraseLoop_blank (fun _ _ => rfl) outcome enough).andThen ?_
      intro erased looped outcome
      cases erased with
      | false => exact .inr outcome
      | true =>
          refine (deliver_told outcome.told).mono (fun _ held => held) ?_
          intro _ _ _
          exact .inl outcome.accepted

/-! ## Programming and verifying -/

theorem bracketed_verified {rest : List Event} (bracketed : Bracketed rest)
    (ended : ∃ answer ∈ rest, answer.ee = .verifyEnd) :
    Bracketed (verifyHistory pof ++ rest) := by
  have verified : Bracketed ([⟨.programEnd, 0, 0⟩, ⟨.verifyStart, 0, 0⟩] ++ rest) := by
    refine ⟨fun opened => absurd rfl opened, ?_⟩
    obtain ⟨answer, member, same⟩ := ended
    exact ⟨fun _ => ⟨answer, member, congrArg some same.symm⟩, bracketed⟩
  have ends : ∃ answer ∈ [⟨.programEnd, 0, 0⟩, ⟨.verifyStart, 0, 0⟩] ++ rest,
      answer.ee = programPhase.finish := ⟨⟨.programEnd, 0, 0⟩, by simp, rfl⟩
  rw [verifyHistory, List.append_assoc]
  exact bracketed_history programPhase verified ends

theorem not_bracketed_verified {rest : List Event}
    (unanswered : ∀ answer ∈ rest, answer.ee ≠ .verifyEnd) :
    ¬ Bracketed (verifyHistory pof ++ rest) := by
  have history : verifyHistory pof ++ rest = (programPhase.history pof
      pof.dwLengthUsedArea.toNat ++ [⟨.programEnd, 0, 0⟩]) ++ ⟨.verifyStart, 0, 0⟩ :: rest := by
    simp [verifyHistory]
  rw [history]
  refine not_closed _ nofun ?_
  intro answer member closes
  injection closes with same
  exact unanswered answer member same.symm

/-- On any flash an accepted programming is bracketed. -/
theorem bootFlashProgram_told (accepts : AcceptsProgram pof pba) (none : state.events = []) :
    (bootFlashProgram bus fuel pof pba).Ensures state (fun _ => True)
      fun _ after => Bracketed after.events := by
  refine setErrorInfo_told.andThen ?_
  rintro _ cleared ⟨same, -⟩
  rw [← same] at none
  refine Program.Ensures.andThen (deliver_start programPhase none) ?_
  rintro accepted started ⟨-, outcome⟩
  cases accepted with
  | false => exact absurd accepts.programming outcome.not_accepted
  | true =>
  refine (programLoop_told outcome).andThen ?_
  intro programmed looped outcome
  cases programmed with
  | false =>
      rcases outcome with refused | failed
      · exact absurd accepts.programming refused.not_accepted
      · exact failed.bracketed
  | true =>
  refine (deliver_told outcome.told).andThen ?_
  rintro accepted ended ⟨-, told, answer⟩
  cases accepted with
  | false =>
      change Bracketed ended.events
      rw [told]
      exact bracketed_told (bracketed_history programPhase ⟨nofun, trivial⟩
        ⟨_, List.mem_singleton_self _, rfl⟩)
  | true =>
  obtain ⟨started, errors⟩ := accepts.verifying answer.symm
  refine (deliver_told told).andThen ?_
  rintro accepted verifying ⟨-, told, answer⟩
  rw [List.append_assoc] at told answer
  cases accepted with
  | false =>
      have refused : pof.accepts (verifyHistory pof) = false := answer.symm
      rw [started] at refused
      cases refused
  | true =>
  refine Program.Ensures.andThen
    ((verifyLoop_told told).mono (fun _ _ => trivial) fun _ _ held => held) ?_
  intro verified compared outcome
  cases verified with
  | true =>
      refine (deliver_told outcome).mono (fun _ held => held) ?_
      rintro _ after ⟨-, told, -⟩
      rw [told]
      exact bracketed_told (bracketed_verified ⟨nofun, trivial⟩
        ⟨_, List.mem_singleton_self _, rfl⟩)
  | false =>
      obtain ⟨i, inside, b, ⟨-, refused⟩ | ⟨told, -⟩⟩ := outcome
      · rw [errors i inside b] at refused
        cases refused
      · change Bracketed compared.events
        rw [told]
        exact bracketed_told (bracketed_verified ⟨nofun, nofun, trivial⟩
          ⟨⟨.verifyEnd, 0, 0⟩, by simp, rfl⟩)

end Driver

section Script

variable {script : Nat → Byte} {state : FlashState Nat} {fuel : Nat} {pba : Memory}

/-- On a flash that reads as the data, programming ends or is refused, and its end
leads to verifying. -/
theorem bootFlashProgram_script (script : Nat → Byte) (verified : List Event → Prop)
    (inPlace : ∀ i < pof.dwLengthUsedArea.toNat, script i = pba i)
    (enough : pof.dwLengthUsedArea.toNat < fuel)
    (verify : ∀ current : FlashState Nat, current.flash = pof.dwLengthUsedArea.toNat →
      current.events = pof.told (programPhase.history pof pof.dwLengthUsedArea.toNat ++
        [⟨.programEnd, 0, 0⟩]) →
      (bootFlashVerify (scriptBus script) fuel pof pba).Ensures current (fun _ => False)
        fun _ after => verified after.events) :
    (bootFlashProgram (scriptBus script) fuel pof pba).Ensures (callState 0) (fun _ => False)
      fun _ after => programPhase.Refused pof after.events ∨
        programPhase.Accepted pof pof.dwLengthUsedArea.toNat ∧
          (pof.accepts (programPhase.history pof pof.dwLengthUsedArea.toNat ++
            [⟨.programEnd, 0, 0⟩]) = true → verified after.events) := by
  refine setErrorInfo_told.andThen ?_
  rintro _ cleared ⟨none, started⟩
  refine Program.Ensures.andThen (deliver_start programPhase none) ?_
  rintro accepted delivered ⟨unread, outcome⟩
  rw [← unread] at started
  cases accepted with
  | false => exact .inl outcome
  | true =>
  refine (programLoop_script inPlace started outcome enough).andThen ?_
  intro programmed looped outcome
  cases programmed with
  | false => exact .inl outcome
  | true =>
  obtain ⟨read, passed⟩ := outcome
  refine (deliver_told passed.told).andThen ?_
  rintro accepted ended ⟨unread, told, answer⟩
  rw [← unread] at read
  cases accepted with
  | false =>
      refine .inr ⟨passed.accepted, fun accepted => ?_⟩
      rw [accepted] at answer
      cases answer
  | true =>
      refine (verify ended read told).mono (fun _ held => held) ?_
      intro _ after verified
      exact .inr ⟨passed.accepted, fun _ => verified⟩

/-- The start of verifying was accepted, or it was the last event. -/
def VerifyStarted (pof : ObjectFlash) (events : List Event) : Prop :=
  pof.accepts (verifyHistory pof) = true ∨
    events = pof.told (verifyHistory pof) ∧ pof.accepts (verifyHistory pof) = false

theorem bootFlashVerify_started (enough : pof.dwLengthUsedArea.toNat < fuel)
    (told : state.events = pof.told (programPhase.history pof pof.dwLengthUsedArea.toNat ++
      [⟨.programEnd, 0, 0⟩])) :
    (bootFlashVerify (scriptBus script) fuel pof pba).Ensures state (fun _ => False)
      fun _ after => VerifyStarted pof after.events := by
  refine (deliver_told told).andThen ?_
  rintro accepted started ⟨-, told, answer⟩
  rw [List.append_assoc] at told answer
  cases accepted with
  | false => exact .inr ⟨told, answer.symm⟩
  | true =>
      refine Program.Ensures.andThen ((verifyLoop_told told).mono ?_ fun _ _ held => held) ?_
      · intro _ short
        omega
      · intro verified looped outcome
        cases verified with
        | false => exact .inl answer.symm
        | true =>
            refine (deliver_told outcome).mono (fun _ held => held) ?_
            intro _ _ _
            exact .inl answer.symm

/-- Where the flash departs from the data at position `i`, that is what is reported. -/
theorem bootFlashVerify_failed {i : Nat} (inside : i < pof.dwLengthUsedArea.toNat)
    (inPlace : ∀ j < i, script (pof.dwLengthUsedArea.toNat + j) = pba j)
    (differs : script (pof.dwLengthUsedArea.toNat + i) ≠ pba i)
    (enough : pof.dwLengthUsedArea.toNat < fuel)
    (accepted : pof.accepts (verifyHistory pof) = true)
    (read : state.flash = pof.dwLengthUsedArea.toNat)
    (told : state.events = pof.told (programPhase.history pof pof.dwLengthUsedArea.toNat ++
      [⟨.programEnd, 0, 0⟩])) :
    (bootFlashVerify (scriptBus script) fuel pof pba).Ensures state (fun _ => False)
      fun _ after => VerifyFailed pof pba i (script (pof.dwLengthUsedArea.toNat + i + 1))
        after.events := by
  refine (deliver_told told).andThen ?_
  rintro answer started ⟨unread, told, same⟩
  rw [List.append_assoc] at told same
  rw [← unread] at read
  rw [show answer = true from same.trans accepted]
  refine (verifyLoop_script inside inPlace differs read told enough).andThen ?_
  rintro _ looped ⟨rfl, failed⟩
  exact failed

/-- The script of a verify error: the data is in place, and then at position `i` it is
not, where `b` is read for the report. -/
def errorScript (pof : ObjectFlash) (pba : Memory) (i : Nat) (b : Byte) (reads : Nat) : Byte :=
  if reads < pof.dwLengthUsedArea.toNat then pba reads
  else if reads < pof.dwLengthUsedArea.toNat + i then pba (reads - pof.dwLengthUsedArea.toNat)
  else if reads = pof.dwLengthUsedArea.toNat + i then pba i + 1
  else b

section ErrorScript

variable {i : Nat} {b : Byte}

theorem errorScript_before {j : Nat} (below : j < i) :
    errorScript pof pba i b (pof.dwLengthUsedArea.toNat + j) = pba j := by
  unfold errorScript
  rw [if_neg (by omega), if_pos (by omega), Nat.add_sub_cancel_left]

theorem errorScript_at : errorScript pof pba i b (pof.dwLengthUsedArea.toNat + i) ≠ pba i := by
  unfold errorScript
  rw [if_neg (by omega), if_neg (by omega), if_pos rfl]
  simp

theorem errorScript_after : errorScript pof pba i b (pof.dwLengthUsedArea.toNat + i + 1) = b := by
  unfold errorScript
  rw [if_neg (by omega), if_neg (by omega), if_neg (by omega)]

end ErrorScript

end Script

/-! ## The exact condition -/

theorem acceptsErase_of_bracketed
    (bracketed : ∀ (σ : Type) (bus : FlashBus σ) (flash : σ) (fuel : Nat) (result : Bool)
      (after : FlashState σ),
      bootFlashEraseMinimalRegion bus fuel pof (callState flash) = .leave (result, after) →
      Bracketed after.events) : AcceptsErase pof := by
  obtain ⟨result, after, run, outcome⟩ := (bootFlashEraseMinimalRegion_blank
    (Nat.lt_succ_self pof.dwLengthUsedArea.toNat)).returns
  rcases outcome with accepts | refused
  · exact accepts
  · exact absurd (bracketed _ _ _ _ _ _ run) refused.not_bracketed

theorem acceptsProgram_of_bracketed {pba : Memory}
    (bracketed : ∀ (σ : Type) (bus : FlashBus σ) (flash : σ) (fuel : Nat) (result : Bool)
      (after : FlashState σ),
      bootFlashProgram bus fuel pof pba (callState flash) = .leave (result, after) →
      Bracketed after.events) : AcceptsProgram pof pba := by
  have enough := Nat.lt_succ_self pof.dwLengthUsedArea.toNat
  -- With the data in place all that can go wrong is a refusal up to the start of verifying.
  obtain ⟨result, after, run, refused | ⟨accepted, verified⟩⟩ :=
    (bootFlashProgram_script pba (VerifyStarted pof) (fun _ _ => rfl) enough
      fun _ _ told => bootFlashVerify_started enough told).returns
  · exact absurd (bracketed _ _ _ _ _ _ run) refused.not_bracketed
  refine ⟨accepted, fun ended => ?_⟩
  have started : pof.accepts (verifyHistory pof) = true := by
    rcases verified ended with accepted | ⟨told, refused⟩
    · exact accepted
    · have closed := bracketed _ _ _ _ _ _ run
      rw [told, told_of_refused refused, ← List.append_nil (verifyHistory pof)] at closed
      exact absurd closed (not_bracketed_verified nofun)
  refine ⟨started, fun i inside b => ?_⟩
  -- With one byte out of place the verify error is reported, and accepted.
  obtain ⟨result, after, run, refused | ⟨_, verified⟩⟩ :=
    (bootFlashProgram_script (errorScript pof pba i b) (VerifyFailed pof pba i _)
      (fun j below => if_pos below) enough
      fun _ read told => bootFlashVerify_failed inside (fun _ => errorScript_before)
        errorScript_at enough started read told).returns
  · exact absurd (bracketed _ _ _ _ _ _ run) refused.not_bracketed
  rcases verified ended with ⟨told, refused⟩ | ⟨-, accepted⟩
  · have closed := bracketed _ _ _ _ _ _ run
    rw [told, told_of_refused refused] at closed
    refine absurd closed (not_bracketed_verified ?_)
    intro answer member
    rw [List.mem_singleton.mp member]
    nofun
  · rw [errorScript_after] at accepted
    exact accepted

/-- On every flash the events of an erase are bracketed exactly if its start and its
updates are accepted, and those of a programming exactly if so are its start, its
updates, the start of verifying and every verify error. -/
theorem bracketed_iff (pof : ObjectFlash) (pba : Memory) :
    ((∀ (σ : Type) (bus : FlashBus σ) (flash : σ) (fuel : Nat) (result : Bool)
        (after : FlashState σ),
        bootFlashEraseMinimalRegion bus fuel pof (callState flash) = .leave (result, after) →
        Bracketed after.events) ↔ AcceptsErase pof) ∧
    ((∀ (σ : Type) (bus : FlashBus σ) (flash : σ) (fuel : Nat) (result : Bool)
        (after : FlashState σ),
        bootFlashProgram bus fuel pof pba (callState flash) = .leave (result, after) →
        Bracketed after.events) ↔ AcceptsProgram pof pba) := by
  refine ⟨⟨acceptsErase_of_bracketed, ?_⟩, ⟨acceptsProgram_of_bracketed, ?_⟩⟩
  · intro accepts σ bus flash fuel result after run
    exact (bootFlashEraseMinimalRegion_told accepts rfl).of_returned run
  · intro accepts σ bus flash fuel result after run
    exact (bootFlashProgram_told accepts rfl).of_returned run

/-- A callback that refuses to start. -/
def refusing : ObjectFlash := { freshObject 0 1 with pcallbackFlash := some fun _ => false }

/-- A refused start is not followed by its end. -/
theorem bracketed_refusing :
    ¬ ∀ (pof : ObjectFlash) (pba : Memory) (σ : Type) (bus : FlashBus σ) (flash : σ) (fuel : Nat)
      (result : Bool) (after : FlashState σ),
      (bootFlashEraseMinimalRegion bus fuel pof (callState flash) = .leave (result, after) →
        Bracketed after.events) ∧
      (bootFlashProgram bus fuel pof pba (callState flash) = .leave (result, after) →
        Bracketed after.events) := by
  intro bracketed
  have closed := (bracketed refusing (fun _ => 0) Nat (scriptBus fun _ => 0) 0 1 false
    ⟨0, [⟨.eraseStart, 0, 0⟩], "Erase Aborted"⟩).1 rfl
  obtain ⟨_, member, _⟩ := closed.1 nofun
  cases member

end Cromwell.Flash
