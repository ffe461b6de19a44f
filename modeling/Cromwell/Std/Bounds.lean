import Cromwell.Std.Program

/-!
# Programs and their bounds

A program with loops comes as a family, one member for each bound on their passes. In
a steady family a larger bound only adds runs that return, so that a run of the
program, as it would be without any bound, is a run of one of the members. Such a
loop returns exactly if its passes, one after the other, come to one that leaves.
-/

namespace Cromwell.Std.Program

universe u v w

variable {σ : Type u} {α : Type v} {β : Type v}

/-- A larger bound changes no run that returned under a smaller one. -/
def Steady (family : Nat → Program σ α) : Prop :=
  ∀ ⦃fuel more state outcome⦄, fuel ≤ more → family fuel state = .leave outcome →
    family more state = .leave outcome

/-- Under some bound the program returns. -/
def Converges (family : Nat → Program σ α) (state : σ) (result : α) (after : σ) : Prop :=
  ∃ fuel, family fuel state = .leave (result, after)

section Rules

variable {family other : Nat → Program σ α} {rest : Nat → α → Program σ β} {state after : σ}

/-- A run in two parts returns exactly if both do. -/
theorem bind_leave {program : Program σ α} {next : α → Program σ β} {outcome : β × σ} :
    (program >>= next) state = .leave outcome ↔
      ∃ result middle, program state = .leave (result, middle) ∧
        next result middle = .leave outcome := by
  simp only [bind]
  cases program state with
  | next cutOff => simp
  | leave reached =>
      constructor
      · exact fun ended => ⟨reached.1, reached.2, rfl, ended⟩
      · rintro ⟨result, middle, same, ended⟩
        injection same with same
        rw [same]
        exact ended

/-- There is one run. -/
theorem Converges.unique {result result' : α} {after' : σ} (steady : Steady family)
    (converges : Converges family state result after)
    (converges' : Converges family state result' after') : result = result' ∧ after = after' := by
  obtain ⟨fuel, ended⟩ := converges
  obtain ⟨fuel', ended'⟩ := converges'
  have first := steady (Nat.le_max_left fuel fuel') ended
  have second := steady (Nat.le_max_right fuel fuel') ended'
  rw [first] at second
  injection second with same
  injection same with sameResult sameAfter
  exact ⟨sameResult, sameAfter⟩

/-- A program without a bound is steady. -/
theorem Steady.const (program : Program σ α) : Steady fun _ => program :=
  fun _ _ _ _ _ ended => ended

/-- Steady parts make a steady whole. -/
theorem Steady.bind (first : Steady family)
    (second : ∀ result, Steady fun fuel => rest fuel result) :
    Steady fun fuel => family fuel >>= rest fuel := by
  intro fuel more state outcome larger ended
  obtain ⟨result, middle, returned, ended⟩ := bind_leave.mp ended
  exact bind_leave.mpr ⟨result, middle, first larger returned, second result larger ended⟩

/-- So do the branches of a condition. -/
theorem Steady.ite {condition : Prop} [Decidable condition] (first : Steady family)
    (second : Steady other) : Steady fun fuel => if condition then family fuel else other fuel := by
  split
  · exact first
  · exact second

/-- The rule of composition. -/
theorem converges_bind {result : β} (first : Steady family)
    (second : ∀ result, Steady fun fuel => rest fuel result) :
    Converges (fun fuel => family fuel >>= rest fuel) state result after ↔
      ∃ value middle, Converges family state value middle ∧
        Converges (fun fuel => rest fuel value) middle result after := by
  constructor
  · rintro ⟨fuel, ended⟩
    obtain ⟨value, middle, returned, ended⟩ := bind_leave.mp ended
    exact ⟨value, middle, ⟨fuel, returned⟩, fuel, ended⟩
  · rintro ⟨value, middle, ⟨fuel, returned⟩, fuel', ended⟩
    exact ⟨max fuel fuel', bind_leave.mpr ⟨value, middle,
      first (Nat.le_max_left fuel fuel') returned,
      second value (Nat.le_max_right fuel fuel') ended⟩⟩

end Rules

/-! ## Loops -/

section Loops

variable {body : Nat → β → Program σ (Pass β α)} {state after : σ} {locals : β} {result : α}

/-- The passes of a loop from the given locals and state come to one that leaves. -/
inductive Iterates (body : Nat → β → Program σ (Pass β α)) : β → σ → α → σ → Prop where
  | leave {locals : β} {state after : σ} {result : α}
      (pass : Converges (fun fuel => body fuel locals) state (.leave result) after) :
      Iterates body locals state result after
  | next {locals later : β} {state middle after : σ} {result : α}
      (pass : Converges (fun fuel => body fuel locals) state (.next later) middle)
      (rest : Iterates body later middle result after) :
      Iterates body locals state result after

/-- A loop returns in its first pass or in a later one. -/
theorem loop_succ_leave {pass : β → Program σ (Pass β α)} {fuel : Nat} {outcome : α × σ} :
    loop pass (fuel + 1) locals state = .leave outcome ↔
      (∃ later middle, pass locals state = .leave (.next later, middle) ∧
        loop pass fuel later middle = .leave outcome) ∨
      pass locals state = .leave (.leave outcome.1, outcome.2) := by
  refine bind_leave.trans ⟨?_, ?_⟩
  · rintro ⟨ended, middle, returned, rest⟩
    cases ended with
    | next later => exact .inl ⟨later, middle, returned, rest⟩
    | leave result =>
        injection rest with same
        subst same
        exact .inr returned
  · rintro (⟨later, middle, returned, rest⟩ | returned)
    · exact ⟨.next later, middle, returned, rest⟩
    · exact ⟨.leave outcome.1, outcome.2, returned, rfl⟩

/-- A pass that goes on uses one of the passes up. -/
theorem loop_succ_next {pass : β → Program σ (Pass β α)} {fuel : Nat} {later : β} {middle : σ}
    (returned : pass locals state = .leave (.next later, middle)) :
    loop pass (fuel + 1) locals state = loop pass fuel later middle := by
  simp only [loop, bind]
  rw [returned]

/-- More passes, each with larger bounds, leave a run that returned as it was. -/
theorem loop_grows (steady : ∀ locals, Steady fun fuel => body fuel locals)
    {inner inner' fuel fuel' : Nat} {outcome : α × σ} (largerInner : inner ≤ inner')
    (larger : fuel ≤ fuel') (ended : loop (body inner) fuel locals state = .leave outcome) :
    loop (body inner') fuel' locals state = .leave outcome := by
  induction fuel generalizing fuel' locals state with
  | zero => cases ended
  | succ fuel ih =>
      obtain ⟨fuel', rfl⟩ : ∃ predecessor, fuel' = predecessor + 1 := ⟨fuel' - 1, by omega⟩
      refine loop_succ_leave.mpr ?_
      rcases loop_succ_leave.mp ended with ⟨later, middle, pass, rest⟩ | pass
      · exact .inl ⟨later, middle, steady locals largerInner pass, ih (by omega) rest⟩
      · exact .inr (steady locals largerInner pass)

/-- A loop over a steady body is steady. -/
theorem Steady.loop (steady : ∀ locals, Steady fun fuel => body fuel locals) (locals : β) :
    Steady fun fuel => loop (body fuel) fuel locals :=
  fun _ _ _ _ larger ended => loop_grows steady larger larger ended

/-- The rule of `while`, without an invariant. -/
theorem converges_loop (steady : ∀ locals, Steady fun fuel => body fuel locals) :
    Converges (fun fuel => loop (body fuel) fuel locals) state result after ↔
      Iterates body locals state result after := by
  constructor
  · rintro ⟨inner, ended⟩
    have iterates : ∀ fuel locals state,
        loop (body inner) fuel locals state = .leave (result, after) →
          Iterates body locals state result after := by
      intro fuel
      induction fuel with
      | zero => exact nofun
      | succ fuel ih =>
          intro locals state ended
          rcases loop_succ_leave.mp ended with ⟨later, middle, pass, rest⟩ | pass
          · exact .next ⟨inner, pass⟩ (ih later middle rest)
          · exact .leave ⟨inner, pass⟩
    exact iterates inner locals state ended
  · intro iterates
    induction iterates with
    | leave pass =>
        obtain ⟨fuel, returned⟩ := pass
        exact ⟨fuel + 1, loop_succ_leave.mpr (.inr (steady _ (Nat.le_succ fuel) returned))⟩
    | @next _ later _ middle _ _ pass _ ih =>
        obtain ⟨fuel, returned⟩ := pass
        obtain ⟨fuel', ended⟩ := ih
        refine ⟨max fuel fuel' + 1, loop_succ_leave.mpr (.inl ⟨later, middle, ?_, ?_⟩)⟩
        · exact steady _ (by omega) returned
        · exact loop_grows steady (by omega) (by omega) ended

end Loops

/-! ## Programs that come to an end -/

section Total

variable {Held : σ → Prop} {family other : Nat → Program σ α} {rest : Nat → α → Program σ β}

/-- From the states where `Held` is true the program returns, to such a state again. -/
structure Total (Held : σ → Prop) (family : Nat → Program σ α) : Prop where
  steady : Steady family
  ends : ∀ state, Held state → ∃ result after, Converges family state result after ∧ Held after

/-- A result is returned under any bound. -/
theorem Total.pure (result : α) : Total Held fun _ => (pure result : Program σ α) :=
  ⟨.const _, fun state held => ⟨result, state, ⟨0, rfl⟩, held⟩⟩

/-- A step returns under any bound, and keeps what it is to keep. -/
theorem Total.update {change : σ → α × σ} (kept : ∀ state, Held state → Held (change state).2) :
    Total Held fun _ => Program.update change :=
  ⟨.const _, fun state held => ⟨(change state).1, (change state).2, ⟨0, rfl⟩, kept state held⟩⟩

/-- Total parts make a total whole. -/
theorem Total.bind (first : Total Held family)
    (second : ∀ result, Total Held fun fuel => rest fuel result) :
    Total Held fun fuel => family fuel >>= rest fuel := by
  have steady := fun result => (second result).steady
  refine ⟨first.steady.bind steady, ?_⟩
  intro state held
  obtain ⟨value, middle, converges, held⟩ := first.ends state held
  obtain ⟨result, after, converges', held⟩ := (second value).ends middle held
  exact ⟨result, after,
    (converges_bind first.steady steady).mpr ⟨value, middle, converges, converges'⟩, held⟩

/-- So do the branches of a condition. -/
theorem Total.ite {condition : Prop} [Decidable condition] (first : Total Held family)
    (second : Total Held other) :
    Total Held fun fuel => if condition then family fuel else other fuel := by
  split
  · exact first
  · exact second

end Total

end Cromwell.Std.Program
