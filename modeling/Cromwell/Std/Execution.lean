import Mathlib.Data.List.Basic

/-!
# Labelled transition systems and their runs

A run starts in an initial state and retains the labels of its steps. Because
every prefix of a run is again a run, a property proved of the last state of
every run holds in every state a run passes through. `LabelledSystem.restrict` keeps the
steps that meet a condition; it is how a result about well-behaved runs states
its assumption on each step.
-/

namespace Cromwell.Std

universe u v

/-- A transition system whose steps carry labels. -/
structure LabelledSystem (Label : Type u) where
  State : Type v
  Initial : State → Prop
  Step : State → Label → State → Prop

namespace LabelledSystem

variable {Label : Type u}

/-- The finite runs of a system, with the labels of their steps. -/
inductive Runs (system : LabelledSystem.{u, v} Label) : List Label → system.State → Prop where
  | initial {state} (valid : system.Initial state) : Runs system [] state
  | step {labels state label next} (prior : Runs system labels state)
      (transition : system.Step state label next) : Runs system (labels ++ [label]) next

/-- A state some run ends in. -/
def Reachable (system : LabelledSystem.{u, v} Label) (state : system.State) : Prop :=
  ∃ labels, system.Runs labels state

/-- The same system with only the steps that satisfy `allowed`. -/
def restrict (system : LabelledSystem.{u, v} Label)
    (allowed : system.State → Label → Prop) : LabelledSystem.{u, v} Label where
  State := system.State
  Initial := system.Initial
  Step state label next := allowed state label ∧ system.Step state label next

/-- The system of a step function. -/
def ofFunction {State : Type v} (initial : State → Prop) (step : State → Label → State) :
    LabelledSystem.{u, v} Label where
  State := State
  Initial := initial
  Step state label next := next = step state label

/-- The steps from one state to another, with their labels. -/
inductive Path (system : LabelledSystem.{u, v} Label) : system.State → List Label →
    system.State → Prop where
  | refl {state} : Path system state [] state
  | step {state label middle labels last} (transition : system.Step state label middle)
      (rest : Path system middle labels last) : Path system state (label :: labels) last

@[simp] theorem path_nil_iff {system : LabelledSystem.{u, v} Label} {state last : system.State} :
    system.Path state [] last ↔ last = state := by
  constructor
  · rintro ⟨⟩
    rfl
  · rintro rfl
    exact .refl

@[simp] theorem path_cons_iff {system : LabelledSystem.{u, v} Label} {label : Label}
    {labels : List Label} {state last : system.State} : system.Path state (label :: labels) last ↔
      ∃ middle, system.Step state label middle ∧ system.Path middle labels last := by
  constructor
  · intro path
    cases path with
    | step transition rest => exact ⟨_, transition, rest⟩
  · rintro ⟨middle, transition, rest⟩
    exact .step transition rest

/-- A path in two parts. -/
theorem Path.split {system : LabelledSystem.{u, v} Label} {first second : List Label}
    {state last : system.State} (path : system.Path state (first ++ second) last) :
    ∃ middle, system.Path state first middle ∧ system.Path middle second last := by
  induction first generalizing state with
  | nil => exact ⟨state, .refl, path⟩
  | cons label first ih =>
      cases path with
      | step transition rest =>
          obtain ⟨middle, before, behind⟩ := ih rest
          exact ⟨middle, .step transition before, behind⟩

/-- A condition that every step meets leaves every path. -/
theorem Path.restrict_true {system : LabelledSystem.{u, v} Label} {labels : List Label}
    {state last : system.State} (path : system.Path state labels last) :
    (system.restrict fun _ _ => True).Path state labels last := by
  induction path with
  | refl => exact .refl
  | step transition _ ih => exact .step ⟨trivial, transition⟩ ih

/-- A run goes on along a path. -/
theorem Runs.extend {system : LabelledSystem.{u, v} Label} {before behind : List Label}
    {state last : system.State} (runs : system.Runs before state)
    (path : system.Path state behind last) : system.Runs (before ++ behind) last := by
  induction path generalizing before with
  | refl => simpa using runs
  | step transition _ ih => simpa using ih (runs.step transition)

/-- An inductive invariant: it holds initially and every step preserves it. -/
structure Invariant (system : LabelledSystem.{u, v} Label) where
  Inv : system.State → Prop
  initial : ∀ state, system.Initial state → Inv state
  preserved : ∀ {state label next}, Inv state → system.Step state label next → Inv next

/-- An inductive invariant holds at the end of every run. -/
theorem Invariant.of_runs {system : LabelledSystem.{u, v} Label} (invariant : system.Invariant)
    {labels : List Label} {state : system.State} (runs : system.Runs labels state) :
    invariant.Inv state := by
  induction runs with
  | initial valid => exact invariant.initial _ valid
  | step _ transition held => exact invariant.preserved held transition

/-- An inductive invariant holds along every path from a state where it holds. -/
theorem Invariant.of_path {system : LabelledSystem.{u, v} Label} (invariant : system.Invariant)
    {labels : List Label} {state last : system.State} (held : invariant.Inv state)
    (path : system.Path state labels last) : invariant.Inv last := by
  induction path with
  | refl => exact held
  | step transition _ ih => exact ih (invariant.preserved held transition)

end LabelledSystem

end Cromwell.Std
