import Mathlib.Tactic
import Cromwell.Std.Memory

/-!
# Button events

The handlers of the controller, the keyboard and the remote control store what
was last reported. `risefall_xpad_BUTTON` turns that into events when it is
polled: a key of the keyboard or of the remote control is taken once, and a
button of the controller gives a rising and a falling edge, with its history kept
in a cell of its own, or in one bit of the cell that the directions share.
-/

namespace Cromwell.Usb

open Cromwell.Std

/-! ## The state and its handlers -/

/-- `struct xpad_data`. -/
structure XpadData where
  timestamp : Int32
  stickLeftX : Int16
  stickLeftY : Int16
  stickRightX : Int16
  stickRightY : Int16
  trigLeft : Int16
  trigRight : Int16
  pad : Byte
  state : Byte
  keys : Nat → Byte

/-- `memset(…, 0, sizeof(struct xpad_data))`. -/
def XpadData.zero : XpadData :=
  { timestamp := 0, stickLeftX := 0, stickLeftY := 0, stickRightX := 0, stickRightY := 0,
    trigLeft := 0, trigRight := 0, pad := 0, state := 0, keys := fun _ => 0 }

/-- The variables the handlers write and the polls read. -/
structure Input where
  /-- `XPAD_current[0]` -/
  current : XpadData
  /-- `XPAD_last[0]` -/
  last : XpadData
  /-- `xpad_button_history` -/
  history : Memory
  currentKeyboardKey : UInt32
  currentRemoteKey : UInt16
  remotekeyIsRepeat : Byte

/-- The variables after `XPADInit` and `XRemoteInit`. -/
def Input.init : Input :=
  { current := .zero, last := .zero, history := fun _ => 0, currentKeyboardKey := 0,
    currentRemoteKey := 0, remotekeyIsRepeat := 0 }

/-- A report of a controller. -/
structure XpadReport where
  /-- `xpi->num` -/
  num : Int
  jiffies : Int32
  data : Nat → Byte

/-- Two bytes of a report, the high one first. -/
def shortOf (high low : Byte) : Int16 := (high.toUInt16 <<< 8 ||| low.toUInt16).toInt16

/-- `xpad_irq` -/
def xpadIrq (report : XpadReport) (input : Input) : Input :=
  if report.num < 0 ∨ 3 < report.num then input
  else
    let data := report.data
    { input with
      last := input.current
      current :=
        { timestamp := report.jiffies
          stickLeftX := shortOf (data 13) (data 12)
          stickLeftY := shortOf (data 15) (data 14)
          stickRightX := shortOf (data 17) (data 16)
          stickRightY := shortOf (data 19) (data 18)
          trigLeft := (data 10).toUInt16.toInt16
          trigRight := (data 11).toUInt16.toInt16
          pad := data 2 &&& 0xf
          state := (data 2 >>> 4) &&& 0xf
          keys := fun k => data (4 + k) } }

/-- A packet of the keyboard or the remote control, with the status and the length of its
transfer. -/
structure Packet where
  status : Int
  actualLength : Int
  bytes : Nat → Byte

/-- `usb_kbd_irq` -/
def usbKbdIrq (packet : Packet) (input : Input) : Input :=
  if packet.status ≠ 0 then input
  else { input with currentKeyboardKey := (packet.bytes 2).toUInt32 }

/-- The key of a packet of the remote control. -/
def remoteKeyOf (packet : Packet) : UInt16 :=
  (packet.bytes 2).toUInt16 <<< 8 ||| (packet.bytes 3).toUInt16

/-- The key is held down. -/
def isRepeat (packet : Packet) : Bool :=
  ¬0x41 < (packet.bytes 4).toNat + (packet.bytes 5).toNat <<< 8

/-- `xremote_irq` -/
def xremoteIrq (packet : Packet) (input : Input) : Input :=
  if packet.status ≠ 0 then input
  else if packet.actualLength < 6 then input
  else
    { input with
      currentRemoteKey := remoteKeyOf packet
      remotekeyIsRepeat := if isRepeat packet then 1 else 0 }

/-! ## The poll -/

def triggerXpadKeyA : Byte := 0
def triggerXpadKeyB : Byte := 1
def triggerXpadKeyBack : Byte := 5
def triggerXpadPadUp : Byte := 6
def triggerXpadPadDown : Byte := 7
def triggerXpadPadLeft : Byte := 8
def triggerXpadPadRight : Byte := 9

/-- The key of the keyboard that stands for a button. -/
def keyboardKey (selectedButton : Byte) : Option UInt32 :=
  if selectedButton = triggerXpadKeyA then some 0x28
  else if selectedButton = triggerXpadKeyB then some 0x29
  else if selectedButton = triggerXpadPadUp then some 0x52
  else if selectedButton = triggerXpadPadDown then some 0x51
  else if selectedButton = triggerXpadPadLeft then some 0x50
  else if selectedButton = triggerXpadPadRight then some 0x4f
  else none

/-- The key of the remote control that stands for a button. -/
def remoteKey (selectedButton : Byte) : Option UInt16 :=
  if selectedButton = triggerXpadKeyA then some 0x0b0a
  else if selectedButton = triggerXpadPadUp then some 0xa60a
  else if selectedButton = triggerXpadPadDown then some 0xa70a
  else if selectedButton = triggerXpadPadLeft then some 0xa90a
  else if selectedButton = triggerXpadPadRight then some 0xa80a
  else if selectedButton = triggerXpadKeyBack then some 0xd80a
  else none

/-- `Buttonmask` -/
def buttonmask (selectedButton : Byte) : Byte :=
  if selectedButton = triggerXpadPadUp then 1
  else if selectedButton = triggerXpadPadDown then 2
  else if selectedButton = triggerXpadPadLeft then 4
  else 8

/-- The key of the keyboard has not been taken, and it is the one of the button. -/
def Input.KeyboardMatches (input : Input) (selectedButton : Byte) : Prop :=
  input.currentKeyboardKey ≠ 0 ∧ keyboardKey selectedButton = some input.currentKeyboardKey

/-- The key of the remote control is the one of the button, and it is not being held down. -/
def Input.RemoteMatches (input : Input) (selectedButton : Byte) : Prop :=
  input.remotekeyIsRepeat = 0 ∧ remoteKey selectedButton = some input.currentRemoteKey

instance decidableKeyboardMatches (input : Input) (selectedButton : Byte) :
    Decidable (input.KeyboardMatches selectedButton) :=
  inferInstanceAs (Decidable (_ ∧ _))

instance decidableRemoteMatches (input : Input) (selectedButton : Byte) :
    Decidable (input.RemoteMatches selectedButton) :=
  inferInstanceAs (Decidable (_ ∧ _))

/-- A button with a history cell of its own. -/
def keyEdge (selectedButton : Byte) (input : Input) : Int × Input :=
  let button := input.current.keys selectedButton.toNat
  let cell := selectedButton.toNat
  if 0x30 < button ∧ input.history cell = 0 then
    (1, { input with history := input.history.set cell 1 })
  else if button = 0 ∧ input.history cell = 1 then
    (-1, { input with history := input.history.set cell 0 })
  else (0, input)

/-- A direction, with its bit of the shared cell. -/
def padEdge (selectedButton : Byte) (input : Input) : Int × Input :=
  let mask := buttonmask selectedButton
  let flipped := { input with history := input.history.set 6 (input.history 6 ^^^ mask) }
  if input.current.pad &&& mask ≠ 0 ∧ input.history 6 &&& mask = 0 then (1, flipped)
  else if input.current.pad &&& mask = 0 ∧ input.history 6 &&& mask ≠ 0 then (-1, flipped)
  else (0, input)

/-- `risefall_xpad_BUTTON` -/
def risefallXpadButton (selectedButton : Byte) (input : Input) : Int × Input :=
  if input.KeyboardMatches selectedButton then (1, { input with currentKeyboardKey := 0 })
  else if input.RemoteMatches selectedButton then
    (1, { input with currentRemoteKey := 0, remotekeyIsRepeat := 0 })
  else if selectedButton < 6 then keyEdge selectedButton input
  else if 5 < selectedButton ∧ selectedButton < 10 then padEdge selectedButton input
  else (0, input)

/-! ## Runs -/

inductive Event where
  | xpad (report : XpadReport)
  | keyboard (packet : Packet)
  | remote (packet : Packet)
  | poll (selectedButton : Byte)

/-- What one event makes of the variables. -/
def Input.after (input : Input) : Event → Input
  | .xpad report => xpadIrq report input
  | .keyboard packet => usbKbdIrq packet input
  | .remote packet => xremoteIrq packet input
  | .poll selectedButton => (risefallXpadButton selectedButton input).2

/-- The variables after a run. -/
def Input.run (input : Input) (events : List Event) : Input := events.foldl Input.after input

/-- The results of the polls of one button, in their order. -/
def pollResults (button : Byte) : Input → List Event → List Int
  | _, [] => []
  | input, event :: events =>
      match event with
      | .poll selectedButton =>
          if selectedButton = button then
            (risefallXpadButton button input).1 :: pollResults button (input.after event) events
          else pollResults button (input.after event) events
      | _ => pollResults button (input.after event) events

end Cromwell.Usb
