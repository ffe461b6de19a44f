import Cromwell.Std.Loop

/-!
# Programs with state and unbounded loops

A program runs from a state to a result in a new state. A `while` loop is given
a bound on its passes; a program that reaches the bound is cut off in the state
it had there. Correctness is `Program.Ensures`: what holds where the program
returns, and what holds where it is cut off. With the second condition `True` it
is partial correctness, with `False` it says that the program returns as well.
-/

namespace Cromwell.Std

universe u v w

/-- A program over the states `σ` with results in `α`. -/
def Program (σ : Type u) (α : Type v) : Type (max u v) := σ → Pass σ (α × σ)

namespace Program

variable {σ : Type u} {α β : Type v}

instance : Monad (Program.{u, v} σ) where
  pure result := fun state => .leave (result, state)
  bind program rest := fun state =>
    match program state with
    | .next cut => .next cut
    | .leave (result, after) => rest result after

/-- Replace the state, with a result computed from the old one. -/
def update (change : σ → α × σ) : Program σ α := fun state => .leave (change state)

/-- Look at the state. -/
def look (view : σ → α) : Program σ α := update fun state => (view state, state)

/-- Change the state. -/
def alter (change : σ → σ) : Program.{u, 0} σ Unit := update fun state => ((), change state)

/-- Cut off here. -/
def stuck : Program σ α := .next

/-- `while`, for at most `fuel` passes; a pass hands its locals to the next one or
leaves the loop with a result. -/
def loop (body : β → Program σ (Pass β α)) : (fuel : Nat) → β → Program σ α
  | 0, _ => fun state => .next state
  | fuel + 1, locals => do
    match ← body locals with
    | .next after => loop body fuel after
    | .leave result => pure result

/-- A program on a part of the state. -/
def within {τ : Type w} (part : τ → σ) (replace : τ → σ → τ) (program : Program σ α) :
    Program τ α := fun whole =>
  match program (part whole) with
  | .next cutOff => .next (replace whole cutOff)
  | .leave (result, after) => .leave (result, replace whole after)

/-- Where the program returns it meets `returned`, where it is cut off `cut`. -/
def Ensures (program : Program σ α) (state : σ) (cut : σ → Prop) (returned : α → σ → Prop) :
    Prop :=
  (program state).Ends cut fun outcome => returned outcome.1 outcome.2

/-- The result of a program that returns. -/
def result (program : Program σ α) (state : σ) : Option α :=
  match program state with
  | .next _ => none
  | .leave outcome => some outcome.1

section Rules

variable {program : Program σ α} {rest : α → Program σ β} {state : σ} {cut cut' : σ → Prop}
  {returned returned' : α → σ → Prop}

@[simp] theorem ensures_pure {result : α} :
    (pure result : Program σ α).Ensures state cut returned ↔ returned result state := Iff.rfl

@[simp] theorem ensures_update {change : σ → α × σ} :
    (update change).Ensures state cut returned ↔
      returned (change state).1 (change state).2 := Iff.rfl

@[simp] theorem ensures_look {view : σ → α} :
    (look view).Ensures state cut returned ↔ returned (view state) state := Iff.rfl

@[simp] theorem ensures_alter {change : σ → σ} {returned : Unit → σ → Prop} :
    (alter change).Ensures state cut returned ↔ returned () (change state) := Iff.rfl

@[simp] theorem ensures_stuck :
    (stuck : Program σ α).Ensures state cut returned ↔ cut state := Iff.rfl

/-- The rule of composition. -/
@[simp] theorem ensures_bind {returned : β → σ → Prop} :
    (program >>= rest).Ensures state cut returned ↔
      program.Ensures state cut fun result after => (rest result).Ensures after cut returned := by
  simp only [Ensures, bind]
  cases program state with
  | next cutOff => exact Iff.rfl
  | leave outcome => exact Iff.rfl

/-- The rule of choice. -/
@[simp] theorem ensures_ite {condition : Prop} [Decidable condition] {other : Program σ α} :
    (if condition then program else other).Ensures state cut returned ↔
      (condition → program.Ensures state cut returned) ∧
        (¬condition → other.Ensures state cut returned) := by
  by_cases holds : condition
  · simp [holds]
  · simp [holds]

/-- A program on a part of the state leaves the rest alone. -/
@[simp] theorem ensures_within {τ : Type w} {part : τ → σ} {replace : τ → σ → τ} {whole : τ}
    {cut : τ → Prop} {returned : α → τ → Prop} :
    (within part replace program).Ensures whole cut returned ↔
      program.Ensures (part whole) (fun cutOff => cut (replace whole cutOff))
        fun result after => returned result (replace whole after) := by
  unfold within Ensures
  dsimp only
  cases program (part whole) with
  | next cutOff => exact Iff.rfl
  | leave outcome => exact Iff.rfl

theorem pure_bind (result : α) : (pure result >>= rest : Program σ β) = rest result := rfl

/-- Programs in sequence, however they are grouped. -/
theorem bind_assoc {γ : Type v} {last : β → Program σ γ} :
    (program >>= rest) >>= last = program >>= fun result => rest result >>= last := by
  funext state
  simp only [bind]
  cases program state with
  | next cutOff => rfl
  | leave outcome => rfl

/-- The rule of consequence. -/
theorem Ensures.mono (ensured : program.Ensures state cut returned)
    (weakerCut : ∀ after, cut after → cut' after)
    (weaker : ∀ result after, returned result after → returned' result after) :
    program.Ensures state cut' returned' :=
  Pass.Ends.mono ensured weakerCut fun outcome => weaker outcome.1 outcome.2

/-- What a program ensures for two reasons it ensures together. -/
theorem Ensures.and (first : program.Ensures state cut returned)
    (second : program.Ensures state cut' returned') :
    program.Ensures state (fun cutOff => cut cutOff ∧ cut' cutOff)
      fun result after => returned result after ∧ returned' result after := by
  unfold Ensures at first second ⊢
  cases ended : program state with
  | next cutOff =>
      rw [ended] at first second
      exact ⟨first, second⟩
  | leave outcome =>
      rw [ended] at first second
      exact ⟨first, second⟩

/-- What is ensured of every outcome holds. -/
theorem Ensures.const {fact : Prop}
    (ensured : program.Ensures state (fun _ => fact) fun _ _ => fact) : fact := by
  unfold Ensures at ensured
  cases ended : program state with
  | next cutOff =>
      rw [ended] at ensured
      exact ensured
  | leave outcome =>
      rw [ended] at ensured
      exact ensured

theorem ensures_true (program : Program σ α) (state : σ) :
    program.Ensures state (fun _ => True) fun _ _ => True := by
  unfold Ensures
  cases program state with
  | next _ => trivial
  | leave _ => trivial

/-- Composition with a known specification of the first part. -/
theorem Ensures.andThen {returned' : β → σ → Prop} (first : program.Ensures state cut returned)
    (second : ∀ result after, returned result after →
      (rest result).Ensures after cut returned') :
    (program >>= rest).Ensures state cut returned' :=
  ensures_bind.mpr (first.mono (fun _ held => held) second)

/-- Composition with a look at the state. -/
theorem Ensures.ofLook {view : σ → α} {returned' : β → σ → Prop}
    (goesOn : ∀ value, value = view state → (rest value).Ensures state cut returned') :
    (look view >>= rest).Ensures state cut returned' :=
  ensures_bind.mpr (goesOn (view state) rfl)

/-- A program that is never cut off returns. -/
theorem Ensures.returns (ensured : program.Ensures state (fun _ => False) returned) :
    ∃ result after, program state = .leave (result, after) ∧ returned result after := by
  unfold Ensures at ensured
  cases ended : program state with
  | next cutOff =>
      rw [ended] at ensured
      exact ensured.elim
  | leave outcome =>
      rw [ended] at ensured
      exact ⟨outcome.1, outcome.2, rfl, ensured⟩

/-- A run that returned ensures what holds there. -/
theorem ensures_of_run {value : α} {after : σ} (run : program state = .leave (value, after))
    (held : returned value after) : program.Ensures state cut returned := by
  unfold Ensures
  rw [run]
  exact held

/-- What is ensured holds where a run returned. -/
theorem Ensures.of_returned {value : α} {after : σ}
    (ensured : program.Ensures state cut returned)
    (run : program state = .leave (value, after)) : returned value after := by
  unfold Ensures at ensured
  rwa [run] at ensured

/-- A program with a result has returned, and what is ensured holds there. -/
theorem Ensures.of_result {value : α} (ensured : program.Ensures state cut returned)
    (run : program.result state = some value) :
    ∃ after, program state = .leave (value, after) ∧ returned value after := by
  unfold result at run
  cases ended : program state with
  | next cutOff =>
      rw [ended] at run
      cases run
  | leave outcome =>
      rw [ended] at run
      injection run with same
      subst same
      exact ⟨outcome.2, rfl, ensured.of_returned ended⟩

/-- The rule of `while`. The invariant may depend on the passes that are left, so
that it also serves as a bound on the loop. -/
theorem loop_ensures {body : β → Program σ (Pass β α)} (Inv : Nat → β → σ → Prop)
    (cutOff : ∀ locals state, Inv 0 locals state → cut state)
    (preserved : ∀ fuel locals state, Inv (fuel + 1) locals state →
      (body locals).Ensures state cut fun ended after =>
        ended.Ends (fun next => Inv fuel next after) fun result => returned result after)
    {fuel : Nat} {locals : β} (entered : Inv fuel locals state) :
    (loop body fuel locals).Ensures state cut returned := by
  induction fuel generalizing locals state with
  | zero => exact cutOff locals state entered
  | succ fuel ih =>
      refine (preserved fuel locals state entered).andThen ?_
      intro ended after held
      cases ended with
      | next locals => exact ih held
      | leave result => exact held

end Rules

/-! ## Programs that return -/

section Returns

/-- From any state the program returns. -/
def Returns (program : Program σ α) : Prop :=
  ∀ state, program.Ensures state (fun _ => False) fun _ _ => True

theorem Returns.pure (result : α) : Returns (pure result : Program σ α) := fun _ => trivial

theorem Returns.update (change : σ → α × σ) : Returns (update change) := fun _ => trivial

theorem Returns.bind {program : Program σ α} {rest : α → Program σ β} (first : Returns program)
    (second : ∀ result, Returns (rest result)) : Returns (program >>= rest) :=
  fun state => (first state).andThen fun result after _ => second result after

theorem Returns.ite {condition : Prop} [Decidable condition] {program other : Program σ α}
    (first : Returns program) (second : Returns other) :
    Returns (if condition then program else other) := by
  split
  · exact first
  · exact second

end Returns

/-! ## What a program does not undo -/

section Stable

variable {Held : σ → Prop}

/-- However the program fares, what holds before holds where it stops. -/
def Stable (Held : σ → Prop) (program : Program σ α) : Prop :=
  ∀ state, Held state → program.Ensures state Held fun _ => Held

theorem Stable.pure (result : α) : Stable Held (pure result : Program σ α) :=
  fun _ held => held

theorem Stable.look (view : σ → α) : Stable Held (look view) := fun _ held => held

theorem Stable.alter {Held : σ → Prop} {change : σ → σ}
    (kept : ∀ state, Held state → Held (change state)) : Stable Held (alter change) :=
  fun state held => kept state held

theorem Stable.stuck : Stable Held (stuck : Program σ α) := fun _ held => held

theorem Stable.bind {program : Program σ α} {rest : α → Program σ β}
    (first : Stable Held program) (second : ∀ result, Stable Held (rest result)) :
    Stable Held (program >>= rest) :=
  fun state held => (first state held).andThen fun result after => second result after

theorem Stable.ite {condition : Prop} [Decidable condition] {program other : Program σ α}
    (first : Stable Held program) (second : Stable Held other) :
    Stable Held (if condition then program else other) := by
  split
  · exact first
  · exact second

theorem Stable.loop {body : β → Program σ (Pass β α)} (stable : ∀ locals, Stable Held (body locals))
    (fuel : Nat) (locals : β) : Stable Held (loop body fuel locals) := by
  intro state held
  refine loop_ensures (fun _ _ => Held) (fun _ _ held => held) ?_ held
  intro _ locals current held
  refine (stable locals current held).mono (fun _ held => held) ?_
  intro ended after held
  cases ended with
  | next _ => exact held
  | leave _ => exact held

/-- A program that returns keeps what it does not undo. -/
theorem Ensures.withStable {program : Program σ α} {state : σ} {returned : α → σ → Prop}
    (ensured : program.Ensures state (fun _ => False) returned) (stable : Stable Held program)
    (held : Held state) :
    program.Ensures state (fun _ => False) fun result after => returned result after ∧ Held after :=
  (ensured.and (stable state held)).mono (fun _ none => none.1) fun _ _ both => both

end Stable

/-! ## What a program leaves alone -/

section Keeps

universe x

variable {γ : Type x} {view : σ → γ}

/-- However the program fares, it does not change the part of the state in view. -/
def Keeps (view : σ → γ) (program : Program σ α) : Prop :=
  ∀ state, program.Ensures state (fun cutOff => view cutOff = view state)
    fun _ after => view after = view state

theorem Keeps.pure (result : α) : Keeps view (pure result : Program σ α) := fun _ => rfl

theorem Keeps.bind {program : Program σ α} {rest : α → Program σ β} (first : Keeps view program)
    (second : ∀ result, Keeps view (rest result)) : Keeps view (program >>= rest) := by
  intro state
  refine (first state).andThen ?_
  intro result after same
  rw [← same]
  exact second result after

theorem Keeps.ite {condition : Prop} [Decidable condition] {program other : Program σ α}
    (first : Keeps view program) (second : Keeps view other) :
    Keeps view (if condition then program else other) := by
  split
  · exact first
  · exact second

theorem Keeps.loop {body : β → Program σ (Pass β α)} (kept : ∀ locals, Keeps view (body locals))
    (fuel : Nat) (locals : β) : Keeps view (loop body fuel locals) := by
  intro state
  refine loop_ensures (fun _ _ current => view current = view state) (fun _ _ same => same) ?_ rfl
  intro _ locals current same
  rw [← same]
  refine (kept locals current).mono (fun _ held => held) ?_
  intro ended after same
  cases ended with
  | next _ => exact same
  | leave _ => exact same

end Keeps

end Program

end Cromwell.Std
