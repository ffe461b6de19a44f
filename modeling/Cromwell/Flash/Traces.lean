import Cromwell.Flash.Progress

/-!
# The traces of the flash loops

On any flash the erase loop and the program loop pass the whole region, are
refused, or fail; the verify loop passes the whole region or reports a byte. Two
flashes are followed to the end: one that is blank, and one that answers reads
from a script, so that the program loop finds the data in place and the verify
loop does not.
-/

namespace Cromwell.Flash

open Cromwell.Std

variable {pof : ObjectFlash}

/-! ## Positions -/

/-- The loop has passed the first `count` positions of the region. -/
structure AtPosition (pof : ObjectFlash) (count : Nat) (dw dwLen : UInt32) : Prop where
  dw : dw = pof.dwStartOffset + UInt32.ofNat count
  left : dwLen.toNat + count = pof.dwLengthUsedArea.toNat

namespace AtPosition

variable {count : Nat} {dw dwLen : UInt32}

theorem start (pof : ObjectFlash) : AtPosition pof 0 pof.dwStartOffset pof.dwLengthUsedArea where
  dw := (UInt32.add_zero _).symm
  left := Nat.add_zero _

theorem more (position : AtPosition pof count dw dwLen) (more : dwLen ≠ 0) :
    count < pof.dwLengthUsedArea.toNat := by
  have positive : 0 < dwLen.toNat := Nat.pos_of_ne_zero fun zero => more (UInt32.toNat_inj.mp zero)
  have left := position.left
  omega

theorem finished (position : AtPosition pof count dw dwLen) (finished : dwLen = 0) :
    count = pof.dwLengthUsedArea.toNat := by
  have left := position.left
  rw [finished, UInt32.toNat_zero] at left
  omega

theorem next (position : AtPosition pof count dw dwLen) (more : dwLen ≠ 0) :
    AtPosition pof (count + 1) (dw + 1) (dwLen - 1) where
  dw := by
    rw [position.dw, UInt32.add_assoc, UInt32.ofNat_add]
    rfl
  left := by
    have left := position.left
    have positive : 0 < dwLen.toNat :=
      Nat.pos_of_ne_zero fun zero => more (UInt32.toNat_inj.mp zero)
    rw [toNat_pred more]
    omega

/-- The position within the region is the index of the pass. -/
theorem offset (position : AtPosition pof count dw dwLen) :
    dw - pof.dwStartOffset = UInt32.ofNat count := by
  rw [position.dw, UInt32.add_comm, UInt32.add_sub_cancel]

/-- The index into the data is the index of the pass. -/
theorem toNat_source (position : AtPosition pof count dw dwLen) (more : dwLen ≠ 0) :
    (UInt32.ofNat count).toNat = count := by
  have below := position.more more
  have bounded := pof.dwLengthUsedArea.toNat_lt
  rw [UInt32.toNat_ofNat']
  exact Nat.mod_eq_of_lt (by omega)

end AtPosition

section Driver

variable {σ : Type} {bus : FlashBus σ} {state : FlashState σ} {cut : FlashState σ → Prop}
  {fuel count : Nat} {dw : UInt32}

/-! ## Erasing -/

/-- A round changes no position, or reports that the chip failed. -/
theorem eraseRound_told {locals : EraseLocals}
    (told : state.events = pof.told (erasePhase.history pof count)) :
    (eraseRound bus fuel pof locals).Ensures state (fun _ => True) fun ended after =>
      ended.Ends
        (fun next => next.dw = locals.dw ∧ next.dwLen = locals.dwLen ∧ after.events = state.events)
        (fun erased => erased = false ∧ erasePhase.Failed pof after.events) := by
  have dw := locals.countRetry_dw
  have dwLen := locals.countRetry_dwLen
  unfold eraseRound
  generalize locals.countRetry = counted at dw dwLen
  dsimp only
  split
  · refine Program.Ensures.andThen (deliverError_failed told) ?_
    intro _ reported failed
    refine readFlash_told.andThen ?_
    rintro b read ⟨-, same, -⟩
    rw [← same] at failed
    exact ⟨rfl, failed⟩
  · split
    · refine (erase28xxx_silent.ensures state).andThen ?_
      intro b erased same
      split
      · rw [← same] at told
        refine Program.Ensures.andThen (deliverError_failed told) ?_
        intro _ reported failed
        exact ⟨rfl, failed⟩
      · exact ⟨dw, dwLen, same⟩
    · refine (erase29xxx_silent.ensures state).andThen ?_
      intro _ erased same
      exact ⟨dw, dwLen, same⟩

theorem eraseAdvance_told {locals : EraseLocals}
    (passed : erasePhase.Passed pof count state.events)
    (position : AtPosition pof count locals.dw locals.dwLen) (more : locals.dwLen ≠ 0) :
    (eraseAdvance pof locals).Ensures state cut fun ended after => after.flash = state.flash ∧
      ended.Ends
        (fun next => AtPosition pof (count + 1) next.dw next.dwLen ∧
          erasePhase.Passed pof (count + 1) after.events)
        (fun erased => erased = false ∧ erasePhase.Refused pof after.events) := by
  unfold eraseAdvance
  rw [position.offset]
  refine (deliverUpdate_passed passed position.dw (position.more more)).andThen ?_
  rintro accepted after ⟨same, outcome⟩
  cases accepted with
  | true => exact ⟨same, position.next more, outcome⟩
  | false => exact ⟨same, rfl, outcome⟩

/-- On any flash the erase loop passes the whole region, is refused, or fails. -/
theorem eraseLoop_told (passed : erasePhase.Passed pof 0 state.events) :
    (eraseLoop bus fuel pof).Ensures state (fun _ => True) fun erased after =>
      if erased then erasePhase.Passed pof pof.dwLengthUsedArea.toNat after.events
      else erasePhase.Refused pof after.events ∨ erasePhase.Failed pof after.events := by
  refine Program.loop_ensures
    (fun _ locals current => ∃ count, AtPosition pof count locals.dw locals.dwLen ∧
      erasePhase.Passed pof count current.events)
    (fun _ _ _ => trivial) ?_ ⟨0, .start pof, passed⟩
  rintro _ locals current ⟨count, position, passed⟩
  unfold erasePass
  split
  next finished =>
    rw [position.finished finished] at passed
    exact passed
  next more =>
    refine readFlash_told.andThen ?_
    rintro b read ⟨-, same, -⟩
    rw [← same] at passed
    split
    · refine (eraseRound_told passed.told).mono (fun _ held => held) ?_
      intro ended after outcome
      cases ended with
      | next locals' =>
          obtain ⟨dw, dwLen, same⟩ := outcome
          refine ⟨count, ?_, ?_⟩
          · rw [dw, dwLen]
            exact position
          · rw [same]
            exact passed
      | leave erased =>
          obtain ⟨rfl, failed⟩ := outcome
          exact .inr failed
    · refine (eraseAdvance_told passed position more).mono (fun _ held => held) ?_
      rintro ended after ⟨-, outcome⟩
      cases ended with
      | next locals' => exact ⟨count + 1, outcome⟩
      | leave erased =>
          obtain ⟨rfl, refused⟩ := outcome
          exact .inl refused

/-- On a flash that is blank already the erase loop ends, and only a refusal stops it. -/
theorem eraseLoop_blank (blank : ∀ flash address, (bus.read flash address).1 = 0xff)
    (passed : erasePhase.Passed pof 0 state.events)
    (enough : pof.dwLengthUsedArea.toNat < fuel) :
    (eraseLoop bus fuel pof).Ensures state (fun _ => False) fun erased after =>
      if erased then erasePhase.Passed pof pof.dwLengthUsedArea.toNat after.events
      else erasePhase.Refused pof after.events := by
  refine Program.loop_ensures
    (fun passes locals current => ∃ count, AtPosition pof count locals.dw locals.dwLen ∧
      pof.dwLengthUsedArea.toNat < count + passes ∧ erasePhase.Passed pof count current.events)
    ?_ ?_ ⟨0, .start pof, by omega, passed⟩
  · rintro locals current ⟨count, position, short, -⟩
    have left := position.left
    omega
  rintro passes locals current ⟨count, position, enough, passed⟩
  unfold erasePass
  split
  next finished =>
    rw [position.finished finished] at passed
    exact passed
  next more =>
    refine readFlash_told.andThen ?_
    rintro b read ⟨value, same, -⟩
    rw [← same] at passed
    rw [if_neg (by rw [value, blank]; exact fun differs => differs rfl)]
    refine (eraseAdvance_told passed position more).mono (fun _ held => held) ?_
    rintro ended after ⟨-, outcome⟩
    cases ended with
    | next locals' =>
        obtain ⟨next, passed⟩ := outcome
        exact ⟨count + 1, next, by omega, passed⟩
    | leave erased =>
        obtain ⟨rfl, refused⟩ := outcome
        exact refused

/-! ## Programming -/

theorem programRound_told {pba : Memory} {locals : ProgramLocals}
    (told : state.events = pof.told (programPhase.history pof count)) :
    (programRound bus fuel pof pba locals).Ensures state (fun _ => True) fun ended after =>
      ended.Ends
        (fun next => next.dw = locals.dw ∧ next.dwLen = locals.dwLen ∧ next.dwSrc = locals.dwSrc ∧
          after.events = state.events)
        (fun programmed => programmed = false ∧ programPhase.Failed pof after.events) := by
  have dw := locals.countRetry_dw
  have dwLen := locals.countRetry_dwLen
  have dwSrc := locals.countRetry_dwSrc
  unfold programRound
  generalize locals.countRetry = counted at dw dwLen dwSrc
  dsimp only
  split
  · refine Program.Ensures.andThen (deliverError_failed told) ?_
    intro _ reported failed
    refine readFlash_told.andThen ?_
    rintro b read ⟨-, same, -⟩
    rw [← same] at failed
    exact ⟨rfl, failed⟩
  · split
    · refine (program28xxx_silent.ensures state).andThen ?_
      rintro ⟨b, dwTimeToLive⟩ programmed same
      dsimp only
      split
      · rw [← same] at told
        refine Program.Ensures.andThen (deliverError_failed told) ?_
        intro _ reported failed
        exact ⟨rfl, failed⟩
      · exact ⟨dw, dwLen, dwSrc, same⟩
    · refine (program29xxx_silent.ensures state).andThen ?_
      intro _ programmed same
      exact ⟨dw, dwLen, dwSrc, same⟩

theorem programAdvance_told {locals : ProgramLocals}
    (passed : programPhase.Passed pof count state.events)
    (position : AtPosition pof count locals.dw locals.dwLen) (source : locals.dwSrc = .ofNat count)
    (more : locals.dwLen ≠ 0) :
    (programAdvance pof locals).Ensures state cut fun ended after => after.flash = state.flash ∧
      ended.Ends
        (fun next => AtPosition pof (count + 1) next.dw next.dwLen ∧
          next.dwSrc = .ofNat (count + 1) ∧ programPhase.Passed pof (count + 1) after.events)
        (fun programmed => programmed = false ∧ programPhase.Refused pof after.events) := by
  unfold programAdvance
  rw [source]
  refine (deliverUpdate_passed passed position.dw (position.more more)).andThen ?_
  rintro accepted after ⟨same, outcome⟩
  cases accepted with
  | true => exact ⟨same, position.next more, (UInt32.ofNat_add count 1).symm, outcome⟩
  | false => exact ⟨same, rfl, outcome⟩

/-- On any flash the program loop passes the whole region, is refused, or fails. -/
theorem programLoop_told {pba : Memory} (passed : programPhase.Passed pof 0 state.events) :
    (programLoop bus fuel pof pba).Ensures state (fun _ => True) fun programmed after =>
      if programmed then programPhase.Passed pof pof.dwLengthUsedArea.toNat after.events
      else programPhase.Refused pof after.events ∨ programPhase.Failed pof after.events := by
  refine Program.loop_ensures
    (fun _ locals current => ∃ count, AtPosition pof count locals.dw locals.dwLen ∧
      locals.dwSrc = .ofNat count ∧ programPhase.Passed pof count current.events)
    (fun _ _ _ => trivial) ?_ ⟨0, .start pof, rfl, passed⟩
  rintro _ locals current ⟨count, position, source, passed⟩
  unfold programPass
  split
  next finished =>
    rw [position.finished finished] at passed
    exact passed
  next more =>
    refine readFlash_told.andThen ?_
    rintro b read ⟨-, same, -⟩
    rw [← same] at passed
    split
    · refine (programRound_told passed.told).mono (fun _ held => held) ?_
      intro ended after outcome
      cases ended with
      | next locals' =>
          obtain ⟨dw, dwLen, dwSrc, same⟩ := outcome
          refine ⟨count, ?_, dwSrc.trans source, ?_⟩
          · rw [dw, dwLen]
            exact position
          · rw [same]
            exact passed
      | leave programmed =>
          obtain ⟨rfl, failed⟩ := outcome
          exact .inr failed
    · refine (programAdvance_told passed position source more).mono (fun _ held => held) ?_
      rintro ended after ⟨-, outcome⟩
      cases ended with
      | next locals' => exact ⟨count + 1, outcome⟩
      | leave programmed =>
          obtain ⟨rfl, refused⟩ := outcome
          exact .inl refused

/-! ## Verifying -/

/-- The history of `BootFlashProgram` where its verify loop starts. -/
def verifyHistory (pof : ObjectFlash) : List Event :=
  programPhase.history pof pof.dwLengthUsedArea.toNat ++
    [⟨.programEnd, 0, 0⟩, ⟨.verifyStart, 0, 0⟩]

/-- The report of a byte that differs from the data. -/
def verifyErrorEvent (pof : ObjectFlash) (pba : Memory) (i : Nat) (b : Byte) : Event :=
  ⟨.verifyError, pof.dwStartOffset + UInt32.ofNat i, writtenAndRead (pba i) b⟩

/-- A verify error ends with its report refused, or with the end of verifying. -/
def VerifyFailed (pof : ObjectFlash) (pba : Memory) (i : Nat) (b : Byte) (events : List Event) :
    Prop :=
  events = pof.told (verifyHistory pof ++ [verifyErrorEvent pof pba i b]) ∧
      pof.accepts (verifyHistory pof ++ [verifyErrorEvent pof pba i b]) = false ∨
    events = pof.told (verifyHistory pof ++ [verifyErrorEvent pof pba i b, ⟨.verifyEnd, 0, 0⟩]) ∧
      pof.accepts (verifyHistory pof ++ [verifyErrorEvent pof pba i b]) = true

theorem verifyError_told {pba : Memory} (told : state.events = pof.told (verifyHistory pof))
    (position : dw = pof.dwStartOffset + UInt32.ofNat count) :
    (verifyError bus pof dw (pba count)).Ensures state cut fun _ after =>
      VerifyFailed pof pba count (bus.read state.flash dw.toNat).1 after.events := by
  unfold verifyError
  cases callback : pof.pcallbackFlash with
  | none =>
      right
      rw [told]
      simp [ObjectFlash.told, ObjectFlash.accepts, callback]
  | some _ =>
      refine readFlash_told.andThen ?_
      rintro b read ⟨value, same, -⟩
      rw [← same] at told
      rw [← value, position]
      refine (deliver_told told).andThen ?_
      rintro accepted reported ⟨-, told, answer⟩
      cases accepted with
      | false => exact .inl ⟨told, answer.symm⟩
      | true =>
          refine (deliver_told told).andThen ?_
          rintro _ ended ⟨-, told, -⟩
          rw [List.append_assoc] at told
          exact .inr ⟨told, answer.symm⟩

/-- On any flash the verify loop passes the whole region, or finds a byte that
differs; it needs no more passes than there are bytes. -/
theorem verifyLoop_told {pba : Memory} (told : state.events = pof.told (verifyHistory pof)) :
    (verifyLoop bus fuel pof pba).Ensures state
      (fun _ => fuel ≤ pof.dwLengthUsedArea.toNat) fun verified after =>
      if verified then after.events = pof.told (verifyHistory pof)
      else ∃ i < pof.dwLengthUsedArea.toNat, ∃ b, VerifyFailed pof pba i b after.events := by
  refine Program.loop_ensures
    (fun passes locals current => ∃ count, AtPosition pof count locals.dw locals.dwLen ∧
      locals.dwSrc = .ofNat count ∧ passes + count = fuel ∧
      current.events = pof.told (verifyHistory pof))
    ?_ ?_ ⟨0, .start pof, rfl, rfl, told⟩
  · rintro locals current ⟨count, position, -, total, -⟩
    have left := position.left
    omega
  rintro passes locals current ⟨count, position, source, total, told⟩
  unfold verifyPass
  split
  · exact told
  next more =>
    have below := position.more more
    rw [source, position.toNat_source more]
    refine readFlash_told.andThen ?_
    rintro b read ⟨-, same, -⟩
    rw [← same] at told
    split
    · refine (verifyError_told told position.dw).andThen ?_
      intro _ reported failed
      exact ⟨count, below, _, failed⟩
    · exact ⟨count + 1, position.next more, (UInt32.ofNat_add count 1).symm, by omega, told⟩

end Driver

/-! ## A scripted flash -/

/-- A flash that answers the reads from a script, whatever the addresses. -/
def scriptBus (script : Nat → Byte) : FlashBus Nat where
  read reads _ := (script reads, reads + 1)
  write reads _ _ := reads

section Script

variable {script : Nat → Byte} {pba : Memory} {state : FlashState Nat} {fuel : Nat}

/-- Where the script gives the data, the program loop ends after one read for each
byte, and only a refusal stops it. -/
theorem programLoop_script (inPlace : ∀ i < pof.dwLengthUsedArea.toNat, script i = pba i)
    (started : state.flash = 0) (passed : programPhase.Passed pof 0 state.events)
    (enough : pof.dwLengthUsedArea.toNat < fuel) :
    (programLoop (scriptBus script) fuel pof pba).Ensures state (fun _ => False)
      fun programmed after =>
        if programmed then after.flash = pof.dwLengthUsedArea.toNat ∧
          programPhase.Passed pof pof.dwLengthUsedArea.toNat after.events
        else programPhase.Refused pof after.events := by
  refine Program.loop_ensures
    (fun passes locals current => ∃ count, AtPosition pof count locals.dw locals.dwLen ∧
      locals.dwSrc = .ofNat count ∧ current.flash = count ∧
      pof.dwLengthUsedArea.toNat < count + passes ∧ programPhase.Passed pof count current.events)
    ?_ ?_ ⟨0, .start pof, rfl, started, by omega, passed⟩
  · rintro locals current ⟨count, position, -, -, short, -⟩
    have left := position.left
    omega
  rintro passes locals current ⟨count, position, source, reads, enough, passed⟩
  unfold programPass
  split
  next finished =>
    rw [position.finished finished] at reads passed
    exact ⟨reads, passed⟩
  next more =>
    rw [source, position.toNat_source more]
    refine readFlash_told.andThen ?_
    rintro b read ⟨value, same, advanced⟩
    have data : b = pba count := by
      rw [value, reads]
      exact inPlace count (position.more more)
    rw [if_neg (not_not.mpr data)]
    rw [← same] at passed
    refine (programAdvance_told passed position source more).mono (fun _ held => held) ?_
    rintro ended after ⟨unread, outcome⟩
    cases ended with
    | next locals' =>
        obtain ⟨next, source, passed⟩ := outcome
        refine ⟨count + 1, next, source, ?_, by omega, passed⟩
        rw [unread, advanced, reads]
        rfl
    | leave programmed =>
        obtain ⟨rfl, refused⟩ := outcome
        exact refused

/-- Where the script departs from the data at position `i`, the verify loop ends there. -/
theorem verifyLoop_script {first i : Nat} (inside : i < pof.dwLengthUsedArea.toNat)
    (inPlace : ∀ j < i, script (first + j) = pba j) (differs : script (first + i) ≠ pba i)
    (started : state.flash = first) (told : state.events = pof.told (verifyHistory pof))
    (enough : pof.dwLengthUsedArea.toNat < fuel) :
    (verifyLoop (scriptBus script) fuel pof pba).Ensures state (fun _ => False)
      fun verified after => verified = false ∧
        VerifyFailed pof pba i (script (first + i + 1)) after.events := by
  refine Program.loop_ensures
    (fun passes locals current => ∃ count, AtPosition pof count locals.dw locals.dwLen ∧
      locals.dwSrc = .ofNat count ∧ current.flash = first + count ∧ count ≤ i ∧
      pof.dwLengthUsedArea.toNat < count + passes ∧
      current.events = pof.told (verifyHistory pof))
    ?_ ?_ ⟨0, .start pof, rfl, started, Nat.zero_le i, by omega, told⟩
  · rintro locals current ⟨count, position, -, -, -, short, -⟩
    have left := position.left
    omega
  rintro passes locals current ⟨count, position, source, reads, before, enough, told⟩
  unfold verifyPass
  split
  next finished =>
    rw [position.finished finished] at before
    omega
  next more =>
    rw [source, position.toNat_source more]
    refine readFlash_told.andThen ?_
    rintro b read ⟨value, same, advanced⟩
    have scripted : b = script (first + count) := by
      rw [value, reads]
      rfl
    have next : read.flash = first + count + 1 := by
      rw [advanced, reads]
      rfl
    rw [← same] at told
    split
    next wrong =>
      have here : count = i := by
        by_contra other
        exact wrong (scripted.trans (inPlace count (by omega)))
      refine (verifyError_told told position.dw).andThen ?_
      intro _ reported failed
      rw [next, here] at failed
      exact ⟨rfl, failed⟩
    next equal =>
      have earlier : count ≠ i := by
        rintro rfl
        exact equal (by rw [scripted]; exact differs)
      refine ⟨count + 1, position.next more, (UInt32.ofNat_add count 1).symm, ?_, by omega,
        by omega, told⟩
      exact next

end Script

end Cromwell.Flash
