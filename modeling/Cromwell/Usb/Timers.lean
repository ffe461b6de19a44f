import Mathlib.Data.List.Range
import Mathlib.Logic.Function.Basic
import Cromwell.Std.Execution

/-!
# The timers of the USB stack

The pending timers stand in a table of twenty slots. `do_all_timers` goes through
the slots and calls the function of each timer it finds, which may itself add,
change and delete timers. A pass is therefore told as steps: a slot is examined, a
function is called, and between the call and its return the table may change.
-/

namespace Cromwell.Usb

open Cromwell.Std

/-- `MAX_TIMERS` -/
def maxTimers : Nat := 20

/-- `main_timer_list`, with the fields of the timers that are read here. -/
structure TimerTable (τ : Type) where
  mainTimerList : Nat → Option τ
  /-- `t->function` is set. -/
  function : τ → Bool
  expires : τ → Int32

/-- What the program and the functions of the timers do to the timers. -/
inductive TimerCall (τ : Type) where
  /-- `t->function = …; t->expires = …` -/
  | assign (t : τ) (function : Bool) (expires : Int32)
  | addTimer (t : τ)
  | delTimer (t : τ)
  | modTimer (t : τ) (ex : Int32)
  deriving DecidableEq

namespace TimerTable

variable {τ : Type} [DecidableEq τ]

/-- The first slot that holds `wanted`. -/
def firstSlot (table : TimerTable τ) (wanted : Option τ) : Option Nat :=
  (List.range maxTimers).find? fun n => table.mainTimerList n = wanted

def setSlot (table : TimerTable τ) (n : Nat) (content : Option τ) : TimerTable τ :=
  { table with mainTimerList := Function.update table.mainTimerList n content }

def setExpires (table : TimerTable τ) (t : τ) (ex : Int32) : TimerTable τ :=
  { table with expires := Function.update table.expires t ex }

/-- `add_timer` -/
def addTimer (table : TimerTable τ) (t : τ) : TimerTable τ :=
  match table.firstSlot none with
  | some n => table.setSlot n (some t)
  | none => table

/-- `del_timer` -/
def delTimer (table : TimerTable τ) (t : τ) : TimerTable τ :=
  match table.firstSlot (some t) with
  | some n => table.setSlot n none
  | none => table

/-- `mod_timer` -/
def modTimer (table : TimerTable τ) (t : τ) (ex : Int32) : TimerTable τ :=
  ((table.delTimer t).setExpires t ex).addTimer t

def after (table : TimerTable τ) : TimerCall τ → TimerTable τ
  | .assign t function expires =>
      { table.setExpires t expires with function := Function.update table.function t function }
  | .addTimer t => table.addTimer t
  | .delTimer t => table.delTimer t
  | .modTimer t ex => table.modTimer t ex

/-- The timer of a slot that `do_all_timers` calls. -/
def due (table : TimerTable τ) (n : Nat) : Option τ :=
  match table.mainTimerList n with
  | some t => if table.function t ∧ table.expires t ≠ 0 then some t else none
  | none => none

/-- What `do_all_timers` does before it calls the function of a timer. -/
def take (table : TimerTable τ) (n : Nat) (t : τ) : TimerTable τ :=
  (table.setExpires t 0).setSlot n none

end TimerTable

/-! ## Runs -/

/-- Where the program stands: outside of `do_all_timers`, before the slot `n`, or in the function
of the timer found in it. -/
inductive Phase where
  | idle
  | scanning (n : Nat)
  | calling (n : Nat)
  deriving DecidableEq

/-- The table, and the timers that have been asked for: added, and since then neither called nor
deleted. The program keeps no record of the latter. -/
structure World (τ : Type) where
  table : TimerTable τ
  phase : Phase
  pending : τ → Bool

inductive TimerEvent (τ : Type) where
  | operate (call : TimerCall τ)
  | enter
  | skip
  | call (t : τ)
  | returned
  | leave
  deriving DecidableEq

section System

variable {τ : Type} [DecidableEq τ]

/-- What a call asks for. -/
def askedFor (pending : τ → Bool) : TimerCall τ → τ → Bool
  | .assign _ _ _ => pending
  | .addTimer t => Function.update pending t true
  | .delTimer t => Function.update pending t false
  | .modTimer t _ => Function.update pending t true

/-- The timers are used as they are meant to be: only a timer that is not pending is added, and
its function and its time are set. -/
def World.Proper (world : World τ) : TimerCall τ → Prop
  | .assign t function expires => world.pending t = true → function = true ∧ expires ≠ 0
  | .addTimer t =>
      world.pending t = false ∧ world.table.function t = true ∧ world.table.expires t ≠ 0
  | .delTimer _ => True
  | .modTimer t ex => world.table.function t = true ∧ ex ≠ 0

instance decidableProper (world : World τ) : (call : TimerCall τ) → Decidable (world.Proper call)
  | .assign _ _ _ => inferInstanceAs (Decidable (_ → _))
  | .addTimer _ => inferInstanceAs (Decidable (_ ∧ _))
  | .delTimer _ => inferInstanceAs (Decidable True)
  | .modTimer _ _ => inferInstanceAs (Decidable (_ ∧ _))

/-- One step of the program. -/
def World.step (world : World τ) : TimerEvent τ → Option (World τ)
  | .operate call =>
      match world.phase with
      | .scanning _ => none
      | _ =>
          if world.Proper call then
            some { world with
              table := world.table.after call
              pending := askedFor world.pending call }
          else none
  | .enter => if world.phase = .idle then some { world with phase := .scanning 0 } else none
  | .skip =>
      match world.phase with
      | .scanning n =>
          if n < maxTimers ∧ world.table.due n = none then
            some { world with phase := .scanning (n + 1) }
          else none
      | _ => none
  | .call t =>
      match world.phase with
      | .scanning n =>
          if n < maxTimers ∧ world.table.due n = some t then
            some {
              table := world.table.take n t
              phase := .calling n
              pending := Function.update world.pending t false }
          else none
      | _ => none
  | .returned =>
      match world.phase with
      | .calling n => some { world with phase := .scanning (n + 1) }
      | _ => none
  | .leave =>
      if world.phase = .scanning maxTimers then some { world with phase := .idle } else none

/-- `init_wrapper` leaves an empty table. -/
def World.Fresh (world : World τ) : Prop :=
  world.table.mainTimerList = (fun _ => none) ∧ world.phase = .idle ∧
    world.pending = fun _ => false

/-- The timers of the USB stack. -/
def timerSystem (τ : Type) [DecidableEq τ] : LabelledSystem (TimerEvent τ) where
  State := World τ
  Initial := World.Fresh
  Step world event next := world.step event = some next

end System

end Cromwell.Usb
