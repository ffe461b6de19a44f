import Cromwell.Std.Signal
import Cromwell.Usb.RiseFall

/-!
# What the polls of a run report

A poll of a button reports the edge between two levels of its history, so the
edges of every run alternate. No key stands for two buttons and no direction has
the bit of another, so a poll changes nothing for the other buttons. A key of the
keyboard or of the remote control is taken by the first poll of its button, and
nothing is left for a second one.
-/

namespace Cromwell.Usb

open Cromwell.Std

/-! ## One button for each key -/

theorem keyboardKey_eq_some {button : Byte} {key : UInt32}
    (stands : keyboardKey button = some key) :
    (button = 0 ∧ key = 0x28) ∨ (button = 1 ∧ key = 0x29) ∨ (button = 6 ∧ key = 0x52) ∨
      (button = 7 ∧ key = 0x51) ∨ (button = 8 ∧ key = 0x50) ∨ (button = 9 ∧ key = 0x4f) := by
  unfold keyboardKey at stands
  split_ifs at stands <;> simp_all [triggerXpadKeyA, triggerXpadKeyB, triggerXpadPadUp,
    triggerXpadPadDown, triggerXpadPadLeft, triggerXpadPadRight]

theorem keyboardKey_injective {button other : Byte} {key : UInt32}
    (stands : keyboardKey button = some key) (stands' : keyboardKey other = some key) :
    button = other := by
  rcases keyboardKey_eq_some stands with h | h | h | h | h | h <;>
    rcases keyboardKey_eq_some stands' with h' | h' | h' | h' | h' | h' <;> simp_all

theorem remoteKey_eq_some {button : Byte} {key : UInt16} (stands : remoteKey button = some key) :
    (button = 0 ∧ key = 0x0b0a) ∨ (button = 6 ∧ key = 0xa60a) ∨ (button = 7 ∧ key = 0xa70a) ∨
      (button = 8 ∧ key = 0xa90a) ∨ (button = 9 ∧ key = 0xa80a) ∨ (button = 5 ∧ key = 0xd80a) := by
  unfold remoteKey at stands
  split_ifs at stands <;> simp_all [triggerXpadKeyA, triggerXpadKeyBack, triggerXpadPadUp,
    triggerXpadPadDown, triggerXpadPadLeft, triggerXpadPadRight]

theorem remoteKey_injective {button other : Byte} {key : UInt16}
    (stands : remoteKey button = some key) (stands' : remoteKey other = some key) :
    button = other := by
  rcases remoteKey_eq_some stands with h | h | h | h | h | h <;>
    rcases remoteKey_eq_some stands' with h' | h' | h' | h' | h' | h' <;> simp_all

@[simp] theorem not_remoteKey_zero (button : Byte) : remoteKey button ≠ some 0 := by
  intro stands
  rcases remoteKey_eq_some stands with h | h | h | h | h | h <;> simp_all

/-! ## Bits of the shared cell -/

/-- The directions are four bits. -/
theorem buttonmask_eq (button : Byte) : buttonmask button = 1 ∨ buttonmask button = 2 ∨
    buttonmask button = 4 ∨ buttonmask button = 8 := by
  unfold buttonmask
  split_ifs <;> simp

/-- The buttons of the directions. -/
theorem direction_cases {button : Byte} (low : 5 < button) (high : button < 10) :
    button = 6 ∨ button = 7 ∨ button = 8 ∨ button = 9 := by
  have low' : 5 < button.toNat := UInt8.lt_iff_toNat_lt.mp low
  have high' : button.toNat < 10 := UInt8.lt_iff_toNat_lt.mp high
  have named : button.toNat = 6 ∨ button.toNat = 7 ∨ button.toNat = 8 ∨ button.toNat = 9 := by
    omega
  simpa [← UInt8.toNat_inj] using named

theorem buttonmask_and {button other : Byte} (low : 5 < button) (high : button < 10)
    (low' : 5 < other) (high' : other < 10) (different : button ≠ other) :
    buttonmask button &&& buttonmask other = 0 := by
  rcases direction_cases low high with rfl | rfl | rfl | rfl <;>
    rcases direction_cases low' high' with rfl | rfl | rfl | rfl <;>
    first | exact absurd rfl different | rfl

theorem xor_and (first second mask : Byte) :
    (first ^^^ second) &&& mask = first &&& mask ^^^ (second &&& mask) := by
  rw [← UInt8.toNat_inj, UInt8.toNat_and, UInt8.toNat_xor, Nat.and_xor_distrib_right,
    UInt8.toNat_xor, UInt8.toNat_and, UInt8.toNat_and]

/-- Flipping a bit changes it. -/
theorem flip_and_same (cell button : Byte) :
    (cell ^^^ buttonmask button) &&& buttonmask button = 0 ↔ cell &&& buttonmask button ≠ 0 := by
  have bits : ∀ k : Fin 256, ∀ mask ∈ [(1 : Byte), 2, 4, 8],
      (UInt8.ofNat k ^^^ mask) &&& mask = 0 ↔ UInt8.ofNat k &&& mask ≠ 0 := by decide +kernel
  have member : buttonmask button ∈ [(1 : Byte), 2, 4, 8] := by
    simpa using buttonmask_eq button
  have here := bits ⟨cell.toNat, cell.toNat_lt⟩ _ member
  rwa [UInt8.ofNat_toNat] at here

/-- Flipping a bit leaves the others. -/
theorem flip_and_other (cell : Byte) {mask other : Byte} (apart : mask &&& other = 0) :
    (cell ^^^ mask) &&& other = cell &&& other := by
  rw [xor_and, apart, UInt8.xor_zero]

/-! ## Edges of the controller -/

/-- Neither the keyboard nor the remote control has a key to be taken. -/
structure Input.Quiet (input : Input) : Prop where
  keyboard : input.currentKeyboardKey = 0
  remote : input.currentRemoteKey = 0

/-- The level that a button's history holds. -/
def Input.held (input : Input) (button : Byte) : Bool :=
  if button < 6 then input.history button.toNat = 1
  else if 5 < button ∧ button < 10 then input.history 6 &&& buttonmask button ≠ 0
  else false

theorem Input.Quiet.poll_eq {input : Input} (quiet : input.Quiet) (button : Byte) :
    risefallXpadButton button input =
      if button < 6 then keyEdge button input
      else if 5 < button ∧ button < 10 then padEdge button input
      else (0, input) := by
  have noKeyboard : ¬input.KeyboardMatches button := fun matched => matched.1 quiet.keyboard
  have noRemote : ¬input.RemoteMatches button := by
    rintro ⟨_, stands⟩
    rw [quiet.remote] at stands
    exact not_remoteKey_zero button stands
  rw [risefallXpadButton, if_neg noKeyboard, if_neg noRemote]

theorem keyEdge_edge {button : Byte} (key : button < 6) (input : Input) :
    Edge (input.held button) (keyEdge button input).1 ((keyEdge button input).2.held button) := by
  unfold keyEdge
  dsimp only
  split_ifs with rises falls
  · simpa [Input.held, key, rises.2] using Edge.rise
  · simpa [Input.held, key, falls.2] using Edge.fall
  · exact .steady _

theorem padEdge_edge {button : Byte} (low : 5 < button) (high : button < 10) (input : Input) :
    Edge (input.held button) (padEdge button input).1 ((padEdge button input).2.held button) := by
  have notKey : ¬button < 6 := by
    rcases direction_cases low high with rfl | rfl | rfl | rfl <;> decide
  have flipped := flip_and_same (input.history 6) button
  unfold padEdge
  dsimp only
  split_ifs with rises falls
  · have set : (input.history 6 ^^^ buttonmask button) &&& buttonmask button ≠ 0 := by
      simpa [rises.2] using flipped
    simpa [Input.held, notKey, low, high, rises.2, set] using Edge.rise
  · have cleared := flipped.mpr falls.2
    simpa [Input.held, notKey, low, high, falls.2, cleared] using Edge.fall
  · exact .steady _

/-- A poll of a button reports the edge its history takes. -/
theorem Input.Quiet.poll_edge {input : Input} (quiet : input.Quiet) (button : Byte) :
    Edge (input.held button) (risefallXpadButton button input).1
      ((risefallXpadButton button input).2.held button) := by
  rw [quiet.poll_eq]
  split_ifs with key direction
  · exact keyEdge_edge key input
  · exact padEdge_edge direction.1 direction.2 input
  · exact .steady _

/-! ## What a poll of another button leaves -/

/-- The polls of one button cannot tell two states apart. -/
structure Alike (button : Byte) (input other : Input) : Prop where
  keyboard : input.KeyboardMatches button ↔ other.KeyboardMatches button
  remote : input.RemoteMatches button ↔ other.RemoteMatches button
  current : input.current = other.current
  cell : button < 6 → input.history button.toNat = other.history button.toNat
  bit : 5 < button → button < 10 →
    input.history 6 &&& buttonmask button = other.history 6 &&& buttonmask button

theorem Alike.refl (button : Byte) (input : Input) : Alike button input input :=
  ⟨Iff.rfl, Iff.rfl, rfl, fun _ => rfl, fun _ _ => rfl⟩

theorem Alike.symm {button : Byte} {input other : Input} (alike : Alike button input other) :
    Alike button other input :=
  ⟨alike.keyboard.symm, alike.remote.symm, alike.current.symm, fun key => (alike.cell key).symm,
    fun low high => (alike.bit low high).symm⟩

theorem Alike.trans {button : Byte} {input middle other : Input}
    (first : Alike button input middle) (second : Alike button middle other) :
    Alike button input other :=
  ⟨first.keyboard.trans second.keyboard, first.remote.trans second.remote,
    first.current.trans second.current, fun key => (first.cell key).trans (second.cell key),
    fun low high => (first.bit low high).trans (second.bit low high)⟩

/-- Only the history has changed, and not what it says of the button. -/
theorem Alike.of_history {button : Byte} {input : Input} {history : Memory}
    (cell : button < 6 → history button.toNat = input.history button.toNat)
    (bit : 5 < button → button < 10 →
      history 6 &&& buttonmask button = input.history 6 &&& buttonmask button) :
    Alike button { input with history } input :=
  ⟨Iff.rfl, Iff.rfl, rfl, cell, bit⟩

theorem alike_keyEdge {selected button : Byte} (different : selected ≠ button)
    (key : selected < 6) (input : Input) : Alike button (keyEdge selected input).2 input := by
  have apart : button.toNat ≠ selected.toNat := fun same =>
    different (UInt8.toNat_inj.mp same.symm)
  have notShared : 6 ≠ selected.toNat := by
    have low : selected.toNat < 6 := UInt8.lt_iff_toNat_lt.mp key
    omega
  unfold keyEdge
  dsimp only
  split_ifs
  · apply Alike.of_history
    · exact fun _ => Memory.set_other _ apart
    · intro _ _
      rw [Memory.set_other _ notShared]
  · apply Alike.of_history
    · exact fun _ => Memory.set_other _ apart
    · intro _ _
      rw [Memory.set_other _ notShared]
  · exact .refl button input

theorem alike_padEdge {selected button : Byte} (different : selected ≠ button)
    (low : 5 < selected) (high : selected < 10) (input : Input) :
    Alike button (padEdge selected input).2 input := by
  have flipped : Alike button { input with
      history := input.history.set 6 (input.history 6 ^^^ buttonmask selected) } input := by
    apply Alike.of_history
    · intro key
      apply Memory.set_other
      have below' : button.toNat < 6 := UInt8.lt_iff_toNat_lt.mp key
      omega
    · intro low' high'
      rw [Memory.set_same]
      exact flip_and_other _ (buttonmask_and low high low' high' different)
  unfold padEdge
  dsimp only
  split_ifs
  · exact flipped
  · exact flipped
  · exact .refl button input

/-- A poll of one button changes nothing that the polls of another one can tell. -/
theorem alike_poll {selected button : Byte} (different : selected ≠ button) (input : Input) :
    Alike button (risefallXpadButton selected input).2 input := by
  unfold risefallXpadButton
  split_ifs with keyboard remote key direction
  · have notStanding : ¬input.KeyboardMatches button := fun matched =>
      different (keyboardKey_injective keyboard.2 matched.2)
    refine ⟨iff_of_false (fun matched => matched.1 rfl) notStanding, Iff.rfl, rfl, fun _ => rfl,
      fun _ _ => rfl⟩
  · have notStanding : ¬input.RemoteMatches button := fun matched =>
      different (remoteKey_injective remote.2 matched.2)
    refine ⟨Iff.rfl, iff_of_false (fun matched => not_remoteKey_zero button matched.2) notStanding,
      rfl, fun _ => rfl, fun _ _ => rfl⟩
  · exact alike_keyEdge different key input
  · exact alike_padEdge different direction.1 direction.2 input
  · exact .refl button input

/-- Both histories change, and they still say the same of the button. -/
theorem Alike.history {button : Byte} {input other : Input} {history history' : Memory}
    (alike : Alike button input other)
    (cell : button < 6 → history button.toNat = history' button.toNat)
    (bit : 5 < button → button < 10 →
      history 6 &&& buttonmask button = history' 6 &&& buttonmask button) :
    Alike button { input with history } { other with history := history' } :=
  ⟨alike.keyboard, alike.remote, alike.current, cell, bit⟩

theorem not_direction_of_key {button : Byte} (key : button < 6) : ¬5 < button := by
  intro low
  have low' : 5 < button.toNat := UInt8.lt_iff_toNat_lt.mp low
  have key' : button.toNat < 6 := UInt8.lt_iff_toNat_lt.mp key
  omega

theorem Alike.keyEdge {button : Byte} {input other : Input} (alike : Alike button input other)
    (key : button < 6) : (keyEdge button input).1 = (keyEdge button other).1 ∧
      Alike button (keyEdge button input).2 (keyEdge button other).2 := by
  have stored : ∀ value : Byte,
      Alike button { input with history := input.history.set button.toNat value }
        { other with history := other.history.set button.toNat value } := by
    intro value
    apply alike.history
    · intro _
      rw [Memory.set_same, Memory.set_same]
    · exact fun low _ => absurd low (not_direction_of_key key)
  unfold Usb.keyEdge
  dsimp only
  rw [alike.current] at stored ⊢
  rw [alike.cell key]
  split_ifs
  · exact ⟨rfl, stored 1⟩
  · exact ⟨rfl, stored 0⟩
  · exact ⟨rfl, alike⟩

theorem Alike.padEdge {button : Byte} {input other : Input} (alike : Alike button input other)
    (low : 5 < button) (high : button < 10) : (padEdge button input).1 = (padEdge button other).1 ∧
      Alike button (padEdge button input).2 (padEdge button other).2 := by
  have flipped : Alike button
      { input with history := input.history.set 6 (input.history 6 ^^^ buttonmask button) }
      { other with history := other.history.set 6 (other.history 6 ^^^ buttonmask button) } := by
    apply alike.history
    · exact fun key => absurd low (not_direction_of_key key)
    · intro _ _
      rw [Memory.set_same, Memory.set_same, xor_and, xor_and, alike.bit low high]
  unfold Usb.padEdge
  dsimp only
  rw [alike.current] at flipped ⊢
  rw [alike.bit low high]
  split_ifs
  · exact ⟨rfl, flipped⟩
  · exact ⟨rfl, flipped⟩
  · exact ⟨rfl, alike⟩

/-- A poll of the button itself gives the same, and leaves the states alike. -/
theorem Alike.poll {button : Byte} {input other : Input} (alike : Alike button input other) :
    (risefallXpadButton button input).1 = (risefallXpadButton button other).1 ∧
      Alike button (risefallXpadButton button input).2 (risefallXpadButton button other).2 := by
  unfold risefallXpadButton
  by_cases keyboard : other.KeyboardMatches button
  · rw [if_pos keyboard, if_pos (alike.keyboard.mpr keyboard)]
    refine ⟨rfl, iff_of_false (fun matched => matched.1 rfl) fun matched => matched.1 rfl,
      alike.remote, alike.current, alike.cell, alike.bit⟩
  rw [if_neg keyboard, if_neg fun matched => keyboard (alike.keyboard.mp matched)]
  by_cases remote : other.RemoteMatches button
  · rw [if_pos remote, if_pos (alike.remote.mpr remote)]
    refine ⟨rfl, alike.keyboard, iff_of_false ?_ ?_, alike.current, alike.cell, alike.bit⟩
    · exact fun matched => not_remoteKey_zero button matched.2
    · exact fun matched => not_remoteKey_zero button matched.2
  rw [if_neg remote, if_neg fun matched => remote (alike.remote.mp matched)]
  split_ifs with key direction
  · exact alike.keyEdge key
  · exact alike.padEdge direction.1 direction.2
  · exact ⟨rfl, alike⟩

theorem Alike.xpadIrq {button : Byte} {input other : Input} (alike : Alike button input other)
    (report : XpadReport) : Alike button (xpadIrq report input) (xpadIrq report other) := by
  unfold Usb.xpadIrq
  split_ifs
  · exact alike
  · exact ⟨alike.keyboard, alike.remote, rfl, alike.cell, alike.bit⟩

theorem Alike.usbKbdIrq {button : Byte} {input other : Input} (alike : Alike button input other)
    (packet : Packet) : Alike button (usbKbdIrq packet input) (usbKbdIrq packet other) := by
  unfold Usb.usbKbdIrq
  split_ifs
  · exact alike
  · exact ⟨Iff.rfl, alike.remote, alike.current, alike.cell, alike.bit⟩

theorem Alike.xremoteIrq {button : Byte} {input other : Input} (alike : Alike button input other)
    (packet : Packet) : Alike button (xremoteIrq packet input) (xremoteIrq packet other) := by
  unfold Usb.xremoteIrq
  split_ifs
  · exact alike
  · exact alike
  · exact ⟨alike.keyboard, Iff.rfl, alike.current, alike.cell, alike.bit⟩
  · exact ⟨alike.keyboard, Iff.rfl, alike.current, alike.cell, alike.bit⟩

/-- States that are alike stay alike. -/
theorem Alike.after {button : Byte} {input other : Input} (alike : Alike button input other)
    (event : Event) : Alike button (input.after event) (other.after event) := by
  cases event with
  | xpad report => exact alike.xpadIrq report
  | keyboard packet => exact alike.usbKbdIrq packet
  | remote packet => exact alike.xremoteIrq packet
  | poll selected =>
      by_cases same : selected = button
      · subst same
        exact alike.poll.2
      · exact ((alike_poll same input).trans alike).trans (alike_poll same other).symm

/-- Runs from states that are alike give the same results. -/
theorem Alike.pollResults_eq {button : Byte} {input other : Input}
    (alike : Alike button input other) (events : List Event) :
    pollResults button input events = pollResults button other events := by
  induction events generalizing input other with
  | nil => rfl
  | cons event events ih =>
      have rest := ih (alike.after event)
      cases event with
      | xpad report => exact rest
      | keyboard packet => exact rest
      | remote packet => exact rest
      | poll selected =>
          unfold pollResults
          dsimp only
          rw [rest, alike.poll.1]

/-! ## Edges along a run -/

/-- The event is a report of a controller or a poll. -/
def Event.FromController : Event → Prop
  | .xpad _ => True
  | .keyboard _ => False
  | .remote _ => False
  | .poll _ => True

theorem Alike.held_eq {button : Byte} {input other : Input} (alike : Alike button input other) :
    input.held button = other.held button := by
  unfold Input.held
  split_ifs with key direction
  · rw [alike.cell key]
  · rw [alike.bit direction.1 direction.2]
  · rfl

theorem Input.Quiet.after {input : Input} (quiet : input.Quiet) {event : Event}
    (controller : event.FromController) : (input.after event).Quiet := by
  cases event with
  | xpad report =>
      show (xpadIrq report input).Quiet
      unfold xpadIrq
      split_ifs
      · exact quiet
      · exact ⟨quiet.keyboard, quiet.remote⟩
  | keyboard packet => exact controller.elim
  | remote packet => exact controller.elim
  | poll selected =>
      show (risefallXpadButton selected input).2.Quiet
      rw [quiet.poll_eq]
      unfold keyEdge padEdge
      dsimp only
      split_ifs <;> exact ⟨quiet.keyboard, quiet.remote⟩

/-- The results of a run of the controller are the edges between two levels. -/
theorem Input.Quiet.signal {input : Input} (quiet : input.Quiet) (button : Byte)
    {events : List Event} (controller : ∀ event ∈ events, event.FromController) :
    Signal (input.held button) (pollResults button input events)
      ((input.run events).held button) := by
  induction events generalizing input with
  | nil => exact .nil _
  | cons event events ih =>
      have first := controller event List.mem_cons_self
      have rest := ih (quiet.after first) fun later member =>
        controller later (List.mem_cons_of_mem event member)
      cases event with
      | keyboard packet => exact first.elim
      | remote packet => exact first.elim
      | xpad report =>
          have kept : (input.after (.xpad report)).held button = input.held button := by
            show (xpadIrq report input).held button = input.held button
            unfold xpadIrq
            split_ifs <;> rfl
          rw [kept] at rest
          exact rest
      | poll selected =>
          unfold pollResults
          by_cases same : selected = button
          · subst same
            simp only [if_pos]
            exact .cons (quiet.poll_edge selected) rest
          · have kept : (input.after (.poll selected)).held button = input.held button :=
              (alike_poll same input).held_eq
            rw [kept] at rest
            simp only [if_neg same]
            exact rest

/-! ## Keys that are taken once -/

section OneShot

/-- The polls of a run that are answered in one way, with their results. -/
def answered (answers : Input → Byte → Prop) [∀ input button, Decidable (answers input button)] :
    Input → List Event → List (Byte × Int)
  | _, [] => []
  | input, event :: events =>
      match event with
      | .poll button =>
          if answers input button then
            (button, (risefallXpadButton button input).1) ::
              answered answers (input.after event) events
          else answered answers (input.after event) events
      | _ => answered answers (input.after event) events

variable {pending answers : Input → Byte → Prop} {refreshes : Event → Prop}

/-- What is pending for a button stays so until it is answered or refreshed, and nothing is
pending behind an answer. -/
structure OneShot (pending answers : Input → Byte → Prop) (refreshes : Event → Prop) : Prop where
  answers_pending : ∀ {input button}, answers input button → pending input button
  rises : ∀ {input button}, answers input button → (risefallXpadButton button input).1 = 1
  kept : ∀ {input event}, ¬refreshes event → ∀ {button},
    pending (input.after event) button → pending input button
  taken : ∀ {input button}, answers input button → ∀ other,
    ¬pending (input.after (.poll button)) other

variable [∀ input button, Decidable (answers input button)]

theorem OneShot.answered_nil (oneShot : OneShot pending answers refreshes) (input : Input)
    (none : ∀ button, ¬pending input button) {events : List Event}
    (same : ∀ event ∈ events, ¬refreshes event) : answered answers input events = [] := by
  induction events generalizing input with
  | nil => rfl
  | cons event events ih =>
      have first := same event List.mem_cons_self
      have rest := ih (input.after event)
        (fun button held => none button (oneShot.kept first held))
        fun later member => same later (List.mem_cons_of_mem event member)
      cases event with
      | xpad report => exact rest
      | keyboard packet => exact rest
      | remote packet => exact rest
      | poll button =>
          have unanswered : ¬answers input button := fun answer =>
            none button (oneShot.answers_pending answer)
          unfold answered
          simpa [unanswered] using rest

/-- Up to the next refresh one poll at most is answered: it rises, and its button is one that
something was pending for. -/
theorem OneShot.answered_once (oneShot : OneShot pending answers refreshes) (input : Input)
    {events : List Event} (same : ∀ event ∈ events, ¬refreshes event) :
    answered answers input events = [] ∨
      ∃ button, answered answers input events = [(button, 1)] ∧ pending input button := by
  induction events generalizing input with
  | nil => exact .inl rfl
  | cons event events ih =>
      have first := same event List.mem_cons_self
      have later : ∀ event ∈ events, ¬refreshes event := fun later member =>
        same later (List.mem_cons_of_mem event member)
      have rest : answered answers (input.after event) events = [] ∨ ∃ button,
          answered answers (input.after event) events = [(button, 1)] ∧ pending input button := by
        rcases ih (input.after event) later with none | ⟨button, one, held⟩
        · exact .inl none
        · exact .inr ⟨button, one, oneShot.kept first held⟩
      cases event with
      | xpad report => exact rest
      | keyboard packet => exact rest
      | remote packet => exact rest
      | poll button =>
          unfold answered
          by_cases answer : answers input button
          · have none := oneShot.answered_nil _ (oneShot.taken answer) later
            right
            refine ⟨button, ?_, oneShot.answers_pending answer⟩
            simp [answer, none, oneShot.rises answer]
          · simpa [answer] using rest

end OneShot

/-- The event is a key of the keyboard. -/
def Event.SetsKeyboardKey : Event → Prop
  | .keyboard packet => packet.status = 0
  | _ => False

/-- The event is a key of the remote control. -/
def Event.SetsRemoteKey : Event → Prop
  | .remote packet => packet.status = 0 ∧ 6 ≤ packet.actualLength
  | _ => False

/-- The poll is answered by the key of the remote control. -/
def Input.RemoteAnswers (input : Input) (button : Byte) : Prop :=
  ¬input.KeyboardMatches button ∧ input.RemoteMatches button

instance decidableRemoteAnswers (input : Input) (button : Byte) :
    Decidable (input.RemoteAnswers button) :=
  inferInstanceAs (Decidable (_ ∧ _))

/-- A poll that is not answered by the keyboard leaves its key. -/
theorem keyboardKey_poll {input : Input} {selected : Byte}
    (unmatched : ¬input.KeyboardMatches selected) :
    (risefallXpadButton selected input).2.currentKeyboardKey = input.currentKeyboardKey := by
  unfold risefallXpadButton keyEdge padEdge
  rw [if_neg unmatched]
  dsimp only
  split_ifs <;> rfl

/-- A poll that is not answered by the remote control leaves its key. -/
theorem remoteKey_poll {input : Input} {selected : Byte}
    (unmatched : ¬input.RemoteAnswers selected) :
    (risefallXpadButton selected input).2.currentRemoteKey = input.currentRemoteKey ∧
      (risefallXpadButton selected input).2.remotekeyIsRepeat = input.remotekeyIsRepeat := by
  unfold risefallXpadButton keyEdge padEdge
  by_cases keyboard : input.KeyboardMatches selected
  · rw [if_pos keyboard]
    exact ⟨rfl, rfl⟩
  · rw [if_neg keyboard, if_neg fun remote => unmatched ⟨keyboard, remote⟩]
    dsimp only
    split_ifs <;> exact ⟨rfl, rfl⟩

theorem keyboardKey_taken {input : Input} {button : Byte} (matched : input.KeyboardMatches button) :
    (input.after (.poll button)).currentKeyboardKey = 0 := by
  show (risefallXpadButton button input).2.currentKeyboardKey = 0
  rw [risefallXpadButton, if_pos matched]

theorem remoteKey_taken {input : Input} {button : Byte} (answer : input.RemoteAnswers button) :
    (input.after (.poll button)).currentRemoteKey = 0 := by
  show (risefallXpadButton button input).2.currentRemoteKey = 0
  rw [risefallXpadButton, if_neg answer.1, if_pos answer.2]

/-- Between two keys of the keyboard, the key stays or it is taken. -/
theorem keyboardKey_after {input : Input} {event : Event} (same : ¬event.SetsKeyboardKey) :
    (input.after event).currentKeyboardKey = input.currentKeyboardKey ∨
      (input.after event).currentKeyboardKey = 0 := by
  cases event with
  | xpad report =>
      show (xpadIrq report input).currentKeyboardKey = _ ∨ _
      unfold xpadIrq
      split_ifs <;> exact .inl rfl
  | keyboard packet =>
      have refused : packet.status ≠ 0 := same
      exact .inl (by simp [Input.after, usbKbdIrq, refused])
  | remote packet =>
      show (xremoteIrq packet input).currentKeyboardKey = _ ∨ _
      unfold xremoteIrq
      split_ifs <;> exact .inl rfl
  | poll selected =>
      by_cases matched : input.KeyboardMatches selected
      · exact .inr (keyboardKey_taken matched)
      · exact .inl (keyboardKey_poll matched)

/-- Between two keys of the remote control, the key stays or it is taken. -/
theorem remoteKey_after {input : Input} {event : Event} (same : ¬event.SetsRemoteKey) :
    ((input.after event).currentRemoteKey = input.currentRemoteKey ∧
      (input.after event).remotekeyIsRepeat = input.remotekeyIsRepeat) ∨
      (input.after event).currentRemoteKey = 0 := by
  cases event with
  | xpad report =>
      left
      show (xpadIrq report input).currentRemoteKey = _ ∧
        (xpadIrq report input).remotekeyIsRepeat = _
      unfold xpadIrq
      split_ifs <;> exact ⟨rfl, rfl⟩
  | keyboard packet =>
      left
      show (usbKbdIrq packet input).currentRemoteKey = _ ∧
        (usbKbdIrq packet input).remotekeyIsRepeat = _
      unfold usbKbdIrq
      split_ifs <;> exact ⟨rfl, rfl⟩
  | remote packet =>
      left
      have refused : packet.status = 0 → packet.actualLength < 6 := by
        intro accepted
        by_contra long
        exact same ⟨accepted, by omega⟩
      show (xremoteIrq packet input).currentRemoteKey = _ ∧
        (xremoteIrq packet input).remotekeyIsRepeat = _
      unfold xremoteIrq
      by_cases status : packet.status = 0
      · simp [status, refused status]
      · simp [status]
  | poll selected =>
      by_cases answer : input.RemoteAnswers selected
      · exact .inr (remoteKey_taken answer)
      · exact .inl (remoteKey_poll answer)

theorem not_remoteMatches_of_zero {input : Input} (zero : input.currentRemoteKey = 0)
    (button : Byte) : ¬input.RemoteMatches button := by
  rintro ⟨_, stands⟩
  rw [zero] at stands
  exact not_remoteKey_zero button stands

theorem oneShot_keyboard :
    OneShot Input.KeyboardMatches Input.KeyboardMatches Event.SetsKeyboardKey where
  answers_pending := id
  rises := fun matched => by rw [risefallXpadButton, if_pos matched]
  kept := by
    intro input event same button held
    rcases keyboardKey_after same with unchanged | zero
    · unfold Input.KeyboardMatches at held ⊢
      rwa [unchanged] at held
    · exact absurd zero held.1
  taken := fun matched _ held => held.1 (keyboardKey_taken matched)

theorem oneShot_remote :
    OneShot Input.RemoteMatches Input.RemoteAnswers Event.SetsRemoteKey where
  answers_pending := fun answer => answer.2
  rises := fun answer => by rw [risefallXpadButton, if_neg answer.1, if_pos answer.2]
  kept := by
    intro input event same button held
    rcases remoteKey_after same with ⟨unchanged, unchanged'⟩ | zero
    · unfold Input.RemoteMatches at held ⊢
      rwa [unchanged, unchanged'] at held
    · exact absurd held (not_remoteMatches_of_zero zero button)
  taken := fun answer other => not_remoteMatches_of_zero (remoteKey_taken answer) other

/-! ## The events of a run -/

theorem run_concat (input : Input) (before : List Event) (event : Event) :
    input.run (before ++ [event]) = (input.run before).after event := by
  simp [Input.run]

theorem quiet_init : Input.init.Quiet := ⟨rfl, rfl⟩

theorem held_init (button : Byte) : Input.init.held button = false := by
  simp [Input.held, Input.init]

/-- A key of the keyboard is taken by one poll at most, of the button it stands for. -/
theorem keyboard_once {input : Input} {packet : Packet} {between : List Event}
    (accepted : packet.status = 0) (same : ∀ event ∈ between, ¬event.SetsKeyboardKey) :
    answered Input.KeyboardMatches (input.after (.keyboard packet)) between = [] ∨
      ∃ button, answered Input.KeyboardMatches (input.after (.keyboard packet)) between =
        [(button, 1)] ∧ keyboardKey button = some (packet.bytes 2).toUInt32 := by
  rcases oneShot_keyboard.answered_once (input.after (.keyboard packet)) same with
    none | ⟨button, one, pending⟩
  · exact .inl none
  · right
    refine ⟨button, one, ?_⟩
    have stands := pending.2
    simpa [Input.after, usbKbdIrq, accepted] using stands

/-- A key of the remote control is taken by one poll at most, of the button it stands for, and by
none while it is held down. -/
theorem remote_once {input : Input} {packet : Packet} {between : List Event}
    (accepted : packet.status = 0) (long : 6 ≤ packet.actualLength)
    (same : ∀ event ∈ between, ¬event.SetsRemoteKey) :
    answered Input.RemoteAnswers (input.after (.remote packet)) between = [] ∨
      ∃ button, answered Input.RemoteAnswers (input.after (.remote packet)) between =
        [(button, 1)] ∧ remoteKey button = some (remoteKeyOf packet) ∧ isRepeat packet = false := by
  rcases oneShot_remote.answered_once (input.after (.remote packet)) same with
    none | ⟨button, one, pending⟩
  · exact .inl none
  · right
    have notShort : ¬packet.actualLength < 6 := by omega
    have matched : isRepeat packet = false ∧ remoteKey button = some (remoteKeyOf packet) := by
      simpa [Input.RemoteMatches, Input.after, xremoteIrq, accepted, notShort] using pending
    exact ⟨button, one, matched.2, matched.1⟩

/-- Button events are edges. From the start the results of every button alternate in a run of the
controller, no poll changes what the polls of another button return, and a key of the keyboard or
of the remote control gives one rise at most, to the button it stands for. -/
theorem buttonEvents_are_edges :
    (∀ events, (∀ event ∈ events, event.FromController) → ∀ button,
      Alternates 1 ((pollResults button Input.init events).filter (· ≠ 0))) ∧
    (∀ before selected later button, selected ≠ button →
      pollResults button (Input.init.run (before ++ [.poll selected])) later =
        pollResults button (Input.init.run before) later) ∧
    (∀ before packet between, packet.status = 0 →
      (∀ event ∈ between, ¬event.SetsKeyboardKey) →
        let taken := answered Input.KeyboardMatches
          (Input.init.run (before ++ [.keyboard packet])) between
        taken = [] ∨ ∃ button, taken = [(button, 1)] ∧
          keyboardKey button = some (packet.bytes 2).toUInt32) ∧
    (∀ before packet between, packet.status = 0 → 6 ≤ packet.actualLength →
      isRepeat packet = false → (∀ event ∈ between, ¬event.SetsRemoteKey) →
        let taken := answered Input.RemoteAnswers
          (Input.init.run (before ++ [.remote packet])) between
        taken = [] ∨ ∃ button, taken = [(button, 1)] ∧
          remoteKey button = some (remoteKeyOf packet)) := by
  refine ⟨?_, ?_, ?_, ?_⟩
  · intro events controller button
    have signal := quiet_init.signal button controller
    rw [held_init] at signal
    exact signal.alternates
  · intro before selected later button different
    rw [run_concat]
    exact (alike_poll different _).pollResults_eq later
  · intro before packet between accepted same
    rw [run_concat]
    exact keyboard_once accepted same
  · intro before packet between accepted long _ same
    rw [run_concat]
    rcases remote_once accepted long same with none | ⟨button, one, stands, _⟩
    · exact .inl none
    · exact .inr ⟨button, one, stands⟩

/-- A controller's report with one button. -/
def pressed (value : Byte) : XpadReport :=
  { num := 0, jiffies := 0, data := fun k => if k = 4 then value else 0 }

/-- The key of the keyboard that stands for button A. -/
def keyA : Packet :=
  { status := 0, actualLength := 8, bytes := fun k => if k = 2 then 0x28 else 0 }

/-- The key of the remote control that stands for button A, not held down. -/
def selectKey : Packet :=
  { status := 0, actualLength := 6,
    bytes := fun k => if k = 2 then 0x0b else if k = 3 then 0x0a else 0xff }

theorem buttonEvents_are_edges_pressed :
    Alternates 1 ((pollResults 0 Input.init
      [.xpad (pressed 0xff), .poll 0, .poll 0, .xpad (pressed 0), .poll 0]).filter (· ≠ 0)) ∧
    pollResults 0 (Input.init.run ([.keyboard keyA] ++ [.poll 1])) [.poll 0] =
      pollResults 0 (Input.init.run [.keyboard keyA]) [.poll 0] ∧
    (answered Input.KeyboardMatches (Input.init.run ([] ++ [.keyboard keyA])) [.poll 0, .poll 0] =
        [] ∨
      ∃ button, answered Input.KeyboardMatches (Input.init.run ([] ++ [.keyboard keyA]))
        [.poll 0, .poll 0] = [(button, 1)] ∧
          keyboardKey button = some (keyA.bytes 2).toUInt32) ∧
    (answered Input.RemoteAnswers (Input.init.run ([] ++ [.remote selectKey])) [.poll 0, .poll 0] =
        [] ∨
      ∃ button, answered Input.RemoteAnswers (Input.init.run ([] ++ [.remote selectKey]))
        [.poll 0, .poll 0] = [(button, 1)] ∧ remoteKey button = some (remoteKeyOf selectKey)) := by
  have edges := buttonEvents_are_edges
  refine ⟨edges.1 _ ?_ 0, edges.2.1 [.keyboard keyA] 1 [.poll 0] 0 (by decide),
    edges.2.2.1 [] keyA [.poll 0, .poll 0] rfl ?_,
    edges.2.2.2 [] selectKey [.poll 0, .poll 0] rfl (by decide) (by decide) ?_⟩
  · simp [Event.FromController]
  · simp [Event.SetsKeyboardKey]
  · simp [Event.SetsRemoteKey]

end Cromwell.Usb
