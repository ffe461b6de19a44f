/-!
# Traces in which what is opened is closed

A trace is closed when each element that opens something is followed by an
element that closes it. Closed traces compose, and an opening element closes
over elements that open nothing.
-/

namespace Cromwell.Std

universe u

variable {α : Type u} {opens : α → Prop} {closes : α → α → Prop}

/-- Each element that opens something is followed by one that closes it. -/
def Closed (opens : α → Prop) (closes : α → α → Prop) : List α → Prop
  | [] => True
  | event :: later =>
    (opens event → ∃ answer ∈ later, closes event answer) ∧ Closed opens closes later

theorem closed_append {first second : List α} (closedFirst : Closed opens closes first)
    (closedSecond : Closed opens closes second) : Closed opens closes (first ++ second) := by
  induction first with
  | nil => exact closedSecond
  | cons event later ih =>
      obtain ⟨closed, rest⟩ := closedFirst
      refine ⟨fun opened => ?_, ih rest⟩
      obtain ⟨answer, member, answers⟩ := closed opened
      exact ⟨answer, List.mem_append_left _ member, answers⟩

theorem closed_of_neutral {trace : List α} (neutral : ∀ event ∈ trace, ¬ opens event) :
    Closed opens closes trace := by
  induction trace with
  | nil => exact trivial
  | cons event later ih =>
      refine ⟨fun opened => absurd opened (neutral event List.mem_cons_self), ?_⟩
      exact ih fun other member => neutral other (List.mem_cons_of_mem _ member)

/-- An element is closed over whatever stands between it and its answer. -/
theorem closed_bracket {event : α} {between rest : List α}
    (closedBetween : Closed opens closes between) (closedRest : Closed opens closes rest)
    (answered : ∃ answer ∈ rest, closes event answer) :
    Closed opens closes (event :: between ++ rest) := by
  refine ⟨fun _ => ?_, closed_append closedBetween closedRest⟩
  obtain ⟨answer, member, answers⟩ := answered
  exact ⟨answer, List.mem_append_right _ member, answers⟩

/-- An element that is never answered leaves the trace open. -/
theorem not_closed (before : List α) {later : List α} {event : α} (opened : opens event)
    (unanswered : ∀ answer ∈ later, ¬ closes event answer) :
    ¬ Closed opens closes (before ++ event :: later) := by
  induction before with
  | nil =>
      rintro ⟨closed, -⟩
      obtain ⟨answer, member, answers⟩ := closed opened
      exact unanswered answer member answers
  | cons _ before ih =>
      rintro ⟨-, rest⟩
      exact ih rest

/-- A trace falls in one way into what comes before the first element of a kind, that
element, and what comes after it. -/
theorem first_unique_of (kind : α → Prop) {event event' : α} {before before' later later' : List α}
    (same : before ++ event :: later = before' ++ event' :: later') (ofKind : kind event)
    (ofKind' : kind event') (absent : ∀ other ∈ before, ¬kind other)
    (absent' : ∀ other ∈ before', ¬kind other) :
    before = before' ∧ event = event' ∧ later = later' := by
  induction before generalizing before' with
  | nil =>
      cases before' with
      | nil =>
          obtain ⟨equal, rest⟩ := List.cons.inj same
          exact ⟨rfl, equal, rest⟩
      | cons first rest =>
          have equal : event = first := (List.cons.inj same).1
          exact absurd (equal ▸ ofKind) (absent' first List.mem_cons_self)
  | cons head before ih =>
      cases before' with
      | nil =>
          have equal : head = event' := (List.cons.inj same).1
          exact absurd (equal ▸ ofKind') (absent head List.mem_cons_self)
      | cons first rest =>
          obtain ⟨equal, tails⟩ := List.cons.inj same
          obtain ⟨rfl, parts⟩ := ih tails
            (fun other member => absent other (List.mem_cons_of_mem _ member))
            fun other member => absent' other (List.mem_cons_of_mem _ member)
          exact ⟨by rw [equal], parts⟩

/-- The case of a single element. -/
theorem first_unique {event : α} {before before' later later' : List α}
    (same : before ++ event :: later = before' ++ event :: later') (absent : event ∉ before)
    (absent' : event ∉ before') : before = before' ∧ later = later' := by
  obtain ⟨front, -, back⟩ := first_unique_of (fun other => other = event) same rfl rfl
    (fun other member equal => absent (equal ▸ member))
    fun other member equal => absent' (equal ▸ member)
  exact ⟨front, back⟩

end Cromwell.Std
