import Cromwell.Std.Loop
import Mathlib.Data.Fintype.Pigeonhole
import Mathlib.Data.Fintype.EquivFin
import Mathlib.Logic.Relation

/-!
# Walks along a partial step

A walk starts somewhere and goes on as long as a partial step leads on. Over finitely
many places it ends unless it comes back to one of them; with the places read off by
a key, whoever can show that a repeated key goes on for ever has the exact condition.
A `while` loop that follows such a step leaves exactly if the walk ends.
-/

namespace Cromwell.Std

universe u v w

section Walk

variable {α : Type u} {κ : Type v} {step : α → Option α} {start : Option α} {key : α → κ}

/-- The place after `count` steps, if the walk gets that far. -/
def walk (step : α → Option α) (start : Option α) : Nat → Option α
  | 0 => start
  | count + 1 => (walk step start count).bind step

/-- The walk stops somewhere. -/
def Ends (step : α → Option α) (start : Option α) : Prop :=
  ∃ count, walk step start count = none

/-- The walk has the same key at two of its places. -/
def Repeats (key : α → κ) (step : α → Option α) (start : Option α) : Prop :=
  ∃ i j first second, i < j ∧ walk step start i = some first ∧
    walk step start j = some second ∧ key first = key second

/-- A walk that has ended stays ended. -/
theorem walk_none {count : Nat} (ended : walk step start count = none) (more : Nat) :
    walk step start (count + more) = none := by
  induction more with
  | zero => exact ended
  | succ more ih =>
      rw [← Nat.add_assoc, walk, ih]
      rfl

/-- The places from some step on are those of the walk that starts there. -/
theorem walk_add (count more : Nat) :
    walk step start (count + more) = walk step (walk step start count) more := by
  induction more with
  | zero => rfl
  | succ more ih => rw [← Nat.add_assoc, walk, ih, walk]

/-- A walk comes to the places its steps lead to from where it starts. -/
theorem exists_walk_iff {reached : α} : (∃ count, walk step start count = some reached) ↔
    ∃ place, start = some place ∧
      Relation.ReflTransGen (fun current next => step current = some next) place reached := by
  constructor
  · rintro ⟨count, walked⟩
    induction count generalizing reached with
    | zero => exact ⟨reached, walked, .refl⟩
    | succ count ih =>
        obtain ⟨last, before, onwards⟩ := Option.bind_eq_some_iff.mp walked
        obtain ⟨place, started, reaches⟩ := ih before
        exact ⟨place, started, reaches.tail onwards⟩
  · rintro ⟨place, rfl, reaches⟩
    induction reaches with
    | refl => exact ⟨0, rfl⟩
    | tail _ onwards ih =>
        obtain ⟨count, walked⟩ := ih
        refine ⟨count + 1, ?_⟩
        rw [walk, walked, Option.bind_some, onwards]

/-- A walk whose first two steps lead to the same key repeats it. -/
theorem repeats_of_steps {place first second : α} (one : step place = some first)
    (two : step first = some second) (same : key first = key second) :
    Repeats key step (some place) := by
  have again : walk step (some place) 2 = some second := by
    rw [walk, walk, walk, Option.bind_some, one, Option.bind_some, two]
  exact ⟨1, 2, first, second, Nat.lt_succ_self 1, one, again, same⟩

/-- A walk over finitely many keys that never repeats one ends. -/
theorem ends_of_not_repeats [Finite κ] (fresh : ¬Repeats key step start) : Ends step start := by
  by_contra endless
  have going : ∀ count, ∃ place, walk step start count = some place := by
    intro count
    cases at_count : walk step start count with
    | none => exact absurd ⟨count, at_count⟩ endless
    | some place => exact ⟨place, rfl⟩
  choose place at_place using going
  obtain ⟨i, j, different, same⟩ :=
    Finite.exists_ne_map_eq_of_infinite fun count => key (place count)
  rcases Nat.lt_or_gt_of_ne different with before | behind
  · exact fresh ⟨i, j, place i, place j, before, at_place i, at_place j, same⟩
  · exact fresh ⟨j, i, place j, place i, behind, at_place j, at_place i, same.symm⟩

/-- A walk that can always go on never ends. -/
theorem not_ends_of_invariant (Inv : α → Prop) {count : Nat} {place : α}
    (entered : walk step start count = some place) (holds : Inv place)
    (preserved : ∀ place, Inv place → ∃ next, step place = some next ∧ Inv next) :
    ¬Ends step start := by
  have going : ∀ more, ∃ place, walk step start (count + more) = some place ∧ Inv place := by
    intro more
    induction more with
    | zero => exact ⟨place, entered, holds⟩
    | succ more ih =>
        obtain ⟨current, reached, inv⟩ := ih
        obtain ⟨next, stepped, kept⟩ := preserved current inv
        refine ⟨next, ?_, kept⟩
        rw [← Nat.add_assoc, walk, reached]
        exact stepped
  rintro ⟨last, ended⟩
  obtain ⟨place, reached, -⟩ := going last
  rw [Nat.add_comm, walk_none ended count] at reached
  exact absurd reached (by simp)

/-- A walk that comes back to a place goes round for ever. -/
theorem not_ends_of_return {i j : Nat} {place : α} (before : i < j)
    (first : walk step start i = some place) (second : walk step start j = some place) :
    ¬Ends step start := by
  obtain ⟨more, rfl⟩ := Nat.exists_eq_add_of_lt before
  have round : walk step (some place) (more + 1) = some place := by
    rw [← first, ← walk_add, ← Nat.add_assoc, first]
    exact second
  refine not_ends_of_invariant (fun current => ∃ k, k < more + 1 ∧
    walk step (some place) k = some current) first ⟨0, Nat.succ_pos more, rfl⟩ ?_
  rintro current ⟨k, inside, reached⟩
  have onwards : step current = walk step (some place) (k + 1) := by
    rw [walk, reached]
    rfl
  rcases Nat.lt_or_ge (k + 1) (more + 1) with later | last
  · cases next_place : walk step (some place) (k + 1) with
    | none =>
        have stuck := walk_none next_place (more + 1 - (k + 1))
        rw [Nat.add_sub_cancel' (Nat.le_of_lt later), round] at stuck
        exact absurd stuck (by simp)
    | some next => exact ⟨next, onwards.trans next_place, k + 1, later, next_place⟩
  · have closing : k + 1 = more + 1 := Nat.le_antisymm inside last
    rw [closing, round] at onwards
    exact ⟨place, onwards, 0, Nat.succ_pos more, rfl⟩

/-- A walk over fewer than `bound` places ends within as many steps or never. -/
theorem ends_iff_walk_none {bound : Nat} {number : α → Nat}
    (bounded : ∀ place, number place < bound)
    (injective : ∀ first second, number first = number second → first = second) :
    Ends step start ↔ walk step start bound = none := by
  refine ⟨fun ended => ?_, fun ended => ⟨bound, ended⟩⟩
  by_contra going
  have some_place : ∀ k : Fin (bound + 1), ∃ place, walk step start k = some place := by
    intro k
    cases reached : walk step start k with
    | some place => exact ⟨place, rfl⟩
    | none =>
        have stuck := walk_none reached (bound - k)
        rw [Nat.add_sub_cancel' (Nat.le_of_lt_succ k.isLt)] at stuck
        exact absurd stuck going
  choose place reached using some_place
  have fewer : Fintype.card (Fin bound) < Fintype.card (Fin (bound + 1)) := by
    simp only [Fintype.card_fin, Nat.lt_succ_self]
  obtain ⟨i, j, different, same⟩ := Fintype.exists_ne_map_eq_of_card_lt
    (fun k => (⟨number (place k), bounded (place k)⟩ : Fin bound)) fewer
  have same : place i = place j := injective _ _ (congrArg Fin.val same)
  have again := same ▸ reached j
  rcases Nat.lt_or_gt_of_ne (Fin.val_ne_of_ne different) with before | behind
  · exact not_ends_of_return before (reached i) again ended
  · exact not_ends_of_return behind again (reached i) ended

/-- Over finitely many places a walk ends exactly if it visits none of them twice. -/
theorem ends_iff_not_repeats [Finite α] : Ends step start ↔ ¬Repeats id step start := by
  constructor
  · rintro ended ⟨i, j, first, second, before, at_first, at_second, same⟩
    rw [id, id] at same
    subst same
    exact not_ends_of_return before at_first at_second ended
  · exact ends_of_not_repeats

end Walk

section While

variable {σ : Type u} {ε : Type v} {α : Type w} {body : σ → Pass σ ε}

/-- At most `fuel` passes of a `while` loop. -/
def whileLoop (body : σ → Pass σ ε) (fuel : Nat) (state : σ) : Pass σ ε :=
  forLoop (fun _ => body) fuel 0 state

/-- The loop leaves after some number of passes. -/
def Halts (body : σ → Pass σ ε) (state : σ) : Prop :=
  ∃ fuel result, whileLoop body fuel state = .leave result

theorem forLoop_start (count start : Nat) (state : σ) :
    forLoop (fun _ => body) count start state = whileLoop body count state := by
  unfold whileLoop
  generalize 0 = other
  induction count generalizing start other state with
  | zero => rfl
  | succ count ih =>
      rw [forLoop_succ, forLoop_succ]
      cases body state with
      | next state => exact ih (start + 1) state (other + 1)
      | leave result => rfl

@[simp] theorem whileLoop_zero (state : σ) : whileLoop body 0 state = .next state := rfl

theorem whileLoop_succ (fuel : Nat) (state : σ) :
    whileLoop body (fuel + 1) state = (body state).andThen (whileLoop body fuel) := by
  rw [whileLoop, forLoop_succ]
  congr 1
  funext next
  exact forLoop_start fuel 1 next

theorem whileLoop_add (fuel more : Nat) (state : σ) : whileLoop body (fuel + more) state =
    (whileLoop body fuel state).andThen (whileLoop body more) := by
  rw [whileLoop, forLoop_add, whileLoop]
  congr 1
  funext next
  exact forLoop_start more (0 + fuel) next

/-- One more pass at the end. -/
theorem whileLoop_last (fuel : Nat) (state : σ) :
    whileLoop body (fuel + 1) state = (whileLoop body fuel state).andThen body := by
  rw [whileLoop_add]
  congr 1
  funext next
  rw [whileLoop_succ]
  cases body next with
  | next state => rfl
  | leave result => rfl

/-- More fuel does not change a result. -/
theorem whileLoop_leave_add {fuel : Nat} {state : σ} {result : ε}
    (left : whileLoop body fuel state = .leave result) (more : Nat) :
    whileLoop body (fuel + more) state = .leave result := by
  rw [whileLoop_add, left]
  rfl

/-- The invariant rule: every pass keeps the invariant, or leaves with what is wanted. -/
theorem whileLoop_ends {Inv : σ → Prop} {Exit : ε → Prop} {state : σ} (entered : Inv state)
    (preserved : ∀ state, Inv state → (body state).Ends Inv Exit) (fuel : Nat) :
    (whileLoop body fuel state).Ends Inv Exit := by
  induction fuel generalizing state with
  | zero => exact entered
  | succ fuel ih =>
      have pass := preserved state entered
      rw [whileLoop_succ]
      generalize body state = ended at pass ⊢
      cases ended with
      | leave result => exact pass
      | next state => exact ih pass

/-- A loop whose passes bring something down halts. -/
theorem halts_of_decreasing (measure : σ → Nat)
    (decreases : ∀ state next, body state = .next next → measure next < measure state)
    (state : σ) : Halts body state := by
  induction count : measure state using Nat.strong_induction_on generalizing state with
  | _ bound ih =>
      cases pass : body state with
      | leave result =>
          refine ⟨1, result, ?_⟩
          rw [whileLoop_succ, pass]
          rfl
      | next next =>
          have less := decreases state next pass
          rw [count] at less
          obtain ⟨fuel, result, left⟩ := ih _ less next rfl
          refine ⟨fuel + 1, result, ?_⟩
          rw [whileLoop_succ, pass]
          exact left

/-- Two runs of a loop that both leave agree on the result. -/
theorem whileLoop_leave_unique {first second : Nat} {state : σ} {left right : ε}
    (leaves : whileLoop body first state = .leave left)
    (leavesToo : whileLoop body second state = .leave right) : left = right := by
  have more := whileLoop_leave_add leaves second
  rw [Nat.add_comm, whileLoop_leave_add leavesToo first] at more
  cases more
  rfl

/-- What a `while` loop has to do with the walk it follows: it leaves where the walk is
over, and a pass that goes on has taken one step. -/
structure Follows (view : σ → Option α) (step : α → Option α) (body : σ → Pass σ ε) : Prop where
  atEnd : ∀ state next, body state = .next next → view state ≠ none
  left : ∀ state result, body state = .leave result → (view state).bind step = none
  onwards : ∀ state next, body state = .next next → view next = (view state).bind step

/-- After some passes the loop is where the walk is. -/
theorem Follows.walk_eq {view : σ → Option α} {step : α → Option α}
    (follows : Follows view step body) {fuel : Nat} {state next : σ}
    (passed : whileLoop body fuel state = .next next) :
    walk step (view state) fuel = view next := by
  induction fuel generalizing next with
  | zero =>
      cases passed
      rfl
  | succ fuel ih =>
      rw [whileLoop_last] at passed
      cases before : whileLoop body fuel state with
      | leave result =>
          rw [before] at passed
          cases passed
      | next current =>
          rw [before] at passed
          rw [walk, ih before, follows.onwards current next passed]

/-- A loop that has left was on a walk that has ended. -/
theorem Follows.walk_none {view : σ → Option α} {step : α → Option α}
    (follows : Follows view step body) {fuel : Nat} {state : σ} {result : ε}
    (left : whileLoop body fuel state = .leave result) :
    walk step (view state) fuel = none := by
  induction fuel with
  | zero => cases left
  | succ fuel ih =>
      rw [whileLoop_last] at left
      rw [walk]
      cases before : whileLoop body fuel state with
      | leave earlier =>
          rw [before] at left
          rw [ih (before.trans left)]
          rfl
      | next current =>
          rw [before] at left
          rw [follows.walk_eq before]
          exact follows.left current result left

/-- Wherever the walk gets, the loop gets. -/
theorem Follows.exists_next {view : σ → Option α} {step : α → Option α}
    (follows : Follows view step body) {count : Nat} {state : σ} {place : α}
    (reached : walk step (view state) count = some place) :
    ∃ next, whileLoop body count state = .next next ∧ view next = some place := by
  cases passed : whileLoop body count state with
  | leave result => exact absurd (reached.symm.trans (follows.walk_none passed)) (by simp)
  | next next => exact ⟨next, rfl, (follows.walk_eq passed).symm.trans reached⟩

/-- The loop leaves exactly if its walk ends. -/
theorem Follows.halts_iff {view : σ → Option α} {step : α → Option α}
    (follows : Follows view step body) (state : σ) :
    Halts body state ↔ Ends step (view state) := by
  constructor
  · rintro ⟨fuel, result, left⟩
    exact ⟨fuel, follows.walk_none left⟩
  · rintro ⟨count, ended⟩
    cases passed : whileLoop body (count + 1) state with
    | leave result => exact ⟨count + 1, result, passed⟩
    | next next =>
        rw [whileLoop_last] at passed
        cases before : whileLoop body count state with
        | leave result =>
            rw [before] at passed
            cases passed
        | next current =>
            rw [before] at passed
            rw [follows.walk_eq before] at ended
            exact absurd ended (follows.atEnd current next passed)

/-! ### What a loop records -/

variable {τ : Type*}

/-- What a loop keeps track of: each pass at a place of the walk adds what is used there. -/
structure Records (view : σ → Option α) (uses : α → τ → Prop) (trace : σ → τ → Prop)
    (ended : ε → τ → Prop) (body : σ → Pass σ ε) : Prop where
  onwards : ∀ state next item, body state = .next next →
    (trace next item ↔ trace state item ∨ ∃ place, view state = some place ∧ uses place item)
  left : ∀ state result item, body state = .leave result →
    (ended result item ↔ trace state item ∨ ∃ place, view state = some place ∧ uses place item)

/-- What has been recorded when a loop stops for either reason. -/
def recorded (trace : σ → τ → Prop) (ended : ε → τ → Prop) : Pass σ ε → τ → Prop
  | .next state => trace state
  | .leave result => ended result

/-- A loop has recorded what is used at the places its walk has been to. -/
theorem Follows.mem_recorded_iff {view : σ → Option α} {step : α → Option α}
    {uses : α → τ → Prop} {trace : σ → τ → Prop} {ended : ε → τ → Prop}
    (follows : Follows view step body) (records : Records view uses trace ended body)
    (fuel : Nat) (state : σ) (item : τ) :
    recorded trace ended (whileLoop body fuel state) item ↔ trace state item ∨
      ∃ count < fuel, ∃ place, walk step (view state) count = some place ∧ uses place item := by
  induction fuel with
  | zero => simp [recorded]
  | succ fuel ih =>
      have split : (∃ count < fuel + 1, ∃ place,
          walk step (view state) count = some place ∧ uses place item) ↔
          (∃ count < fuel, ∃ place,
            walk step (view state) count = some place ∧ uses place item) ∨
          ∃ place, walk step (view state) fuel = some place ∧ uses place item := by
        constructor
        · rintro ⟨count, bound, found⟩
          rcases Nat.lt_succ_iff_lt_or_eq.mp bound with earlier | rfl
          · exact .inl ⟨count, earlier, found⟩
          · exact .inr found
        · rintro (⟨count, bound, found⟩ | found)
          · exact ⟨count, Nat.lt_succ_of_lt bound, found⟩
          · exact ⟨fuel, Nat.lt_succ_self fuel, found⟩
      rw [split, ← or_assoc, ← ih, whileLoop_last]
      cases passed : whileLoop body fuel state with
      | leave result =>
          have atEnd := follows.walk_none passed
          simp [Pass.andThen, recorded, atEnd]
      | next current =>
          rw [Pass.andThen, follows.walk_eq passed]
          cases pass : body current with
          | next next => exact records.onwards current next item pass
          | leave result => exact records.left current result item pass

end While

end Cromwell.Std
