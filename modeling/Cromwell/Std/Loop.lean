/-!
# Counted loops with an early exit

The body of a loop either hands a state to the next pass or leaves the loop with
a result. A counted loop makes at most a fixed number of passes. The same loop
without an interest in its index, read as a bound on the passes, is a `while`
loop that may run out of steps. Correctness is one rule: an invariant indexed by
the pass, and a condition that every early exit meets.
-/

namespace Cromwell.Std

universe u v

/-- How a pass, or a whole loop, ends. -/
inductive Pass (σ : Type u) (ε : Type v) where
  | next (state : σ)
  | leave (result : ε)
  deriving Repr, DecidableEq

namespace Pass

variable {σ : Type u} {ε : Type v}

/-- The pass ends in one of two ways, and the matching condition holds there. -/
def Ends (continued : σ → Prop) (left : ε → Prop) : Pass σ ε → Prop
  | next state => continued state
  | leave result => left result

theorem Ends.mono {continued continued' : σ → Prop} {left left' : ε → Prop} {pass : Pass σ ε}
    (ends : pass.Ends continued left) (weaker : ∀ state, continued state → continued' state)
    (weakerExit : ∀ result, left result → left' result) : pass.Ends continued' left' := by
  cases pass with
  | next state => exact weaker state ends
  | leave result => exact weakerExit result ends

/-- Conditions that exclude each other do not hold of one pass. -/
theorem Ends.contradict {continued continued' : σ → Prop} {left left' : ε → Prop} {pass : Pass σ ε}
    (ends : pass.Ends continued left) (ends' : pass.Ends continued' left')
    (apart : ∀ state, continued state → ¬continued' state)
    (apartExit : ∀ result, left result → ¬left' result) : False := by
  cases pass with
  | next state => exact apart state ends ends'
  | leave result => exact apartExit result ends ends'

instance {continued : σ → Prop} {left : ε → Prop} [DecidablePred continued]
    [DecidablePred left] : (pass : Pass σ ε) → Decidable (pass.Ends continued left)
  | next state => inferInstanceAs (Decidable (continued state))
  | leave result => inferInstanceAs (Decidable (left result))

/-- What the rest of a loop makes of one pass. -/
def andThen : Pass σ ε → (σ → Pass σ ε) → Pass σ ε
  | next state, rest => rest state
  | leave result, _ => leave result

end Pass

section Loop

variable {σ : Type u} {ε : Type v}

/-- `count` passes numbered from `start`, cut short by the first one that leaves. -/
def forLoop (body : Nat → σ → Pass σ ε) : (count start : Nat) → σ → Pass σ ε
  | 0, _, state => .next state
  | count + 1, start, state => (body start state).andThen (forLoop body count (start + 1))

variable {body : Nat → σ → Pass σ ε}

@[simp] theorem forLoop_zero (start : Nat) (state : σ) :
    forLoop body 0 start state = .next state := rfl

theorem forLoop_succ (count start : Nat) (state : σ) :
    forLoop body (count + 1) start state =
      (body start state).andThen (forLoop body count (start + 1)) := rfl

/-- A loop splits into its first passes and the remaining ones. -/
theorem forLoop_add (first rest start : Nat) (state : σ) :
    forLoop body (first + rest) start state =
      (forLoop body first start state).andThen (forLoop body rest (start + first)) := by
  induction first generalizing start state with
  | zero => simp [Pass.andThen]
  | succ first ih =>
      rw [Nat.add_right_comm, forLoop_succ, forLoop_succ]
      cases body start state with
      | next state =>
          have shifted : start + 1 + first = start + (first + 1) := by omega
          simp only [Pass.andThen]
          rw [ih, shifted]
          rfl
      | leave result => rfl

/-- The loop rule: each pass takes the invariant at its index to the one at the
next index, or leaves in a state that meets the exit condition. -/
theorem forLoop_ends {Inv : Nat → σ → Prop} {Exit : ε → Prop} {count start : Nat} {state : σ}
    (entered : Inv start state)
    (preserved : ∀ index state, start ≤ index → index < start + count → Inv index state →
      (body index state).Ends (Inv (index + 1)) Exit) :
    (forLoop body count start state).Ends (Inv (start + count)) Exit := by
  induction count generalizing start state with
  | zero => simpa [Pass.Ends] using entered
  | succ count ih =>
      have pass := preserved start state (Nat.le_refl start) (by omega) entered
      rw [forLoop_succ]
      generalize body start state = ended at pass ⊢
      cases ended with
      | leave result => exact pass
      | next state =>
          have rest := ih pass
            (fun index state lower upper => preserved index state (by omega) (by omega))
          have total : start + (count + 1) = start + 1 + count := by omega
          rw [total]
          exact rest

/-- What every early exit meets, the exit of the loop meets. -/
theorem forLoop_exit {Exit : ε → Prop}
    (each : ∀ index state, (body index state).Ends (fun _ => True) Exit) (count start : Nat)
    (state : σ) : (forLoop body count start state).Ends (fun _ => True) Exit := by
  induction count generalizing start state with
  | zero => trivial
  | succ count ih =>
      have pass := each start state
      rw [forLoop_succ]
      generalize body start state = ended at pass ⊢
      cases ended with
      | leave result => exact pass
      | next state => exact ih (start + 1) state

/-- A search changes nothing up to the first index that is found, and leaves there. -/
theorem forLoop_first {Found : Nat → Prop} {Exit : Nat → ε → Prop} {state : σ} (count start : Nat)
    (each : ∀ index, start ≤ index → index < start + count →
      (body index state).Ends (fun next => next = state ∧ ¬Found index)
        fun result => Found index ∧ Exit index result) :
    (forLoop body count start state).Ends
      (fun next => next = state ∧ ∀ index, start ≤ index → index < start + count → ¬Found index)
      fun result => ∃ index, start ≤ index ∧ index < start + count ∧ Found index ∧
        (∀ earlier, start ≤ earlier → earlier < index → ¬Found earlier) ∧ Exit index result := by
  induction count generalizing start with
  | zero => exact ⟨rfl, fun index lower upper => absurd upper (by omega)⟩
  | succ count ih =>
      have pass := each start (Nat.le_refl start) (by omega)
      rw [forLoop_succ]
      generalize body start state = ended at pass ⊢
      cases ended with
      | leave result =>
          obtain ⟨found, exits⟩ := pass
          exact ⟨start, Nat.le_refl start, by omega, found,
            fun earlier lower upper => absurd upper (by omega), exits⟩
      | next next =>
          obtain ⟨rfl, notFound⟩ := pass
          have fresh : ∀ index, start ≤ index → (start + 1 ≤ index → ¬Found index) →
              ¬Found index := by
            intro index lower later
            rcases Nat.eq_or_lt_of_le lower with rfl | above
            · exact notFound
            · exact later above
          apply (ih (start + 1) fun index lower upper => each index (by omega) (by omega)).mono
          · rintro last ⟨same, none⟩
            exact ⟨same, fun index lower upper =>
              fresh index lower fun above => none index above (by omega)⟩
          · rintro result ⟨index, lower, upper, found, none, exits⟩
            exact ⟨index, by omega, by omega, found, fun earlier from' below =>
              fresh earlier from' fun above => none earlier above below, exits⟩

/-- Where the passes do not depend on the state, a loop leaves at the first index that does. -/
theorem forLoop_leave_iff {pass : Nat → Pass Unit ε} {result : ε} (count start : Nat) :
    forLoop (fun index _ => pass index) count start () = .leave result ↔
      ∃ index, start ≤ index ∧ index < start + count ∧
        (∀ earlier, start ≤ earlier → earlier < index → pass earlier = .next ()) ∧
          pass index = .leave result := by
  induction count generalizing start with
  | zero =>
      simp only [forLoop_zero, reduceCtorEq, false_iff]
      rintro ⟨index, lower, upper, -⟩
      omega
  | succ count ih =>
      rw [forLoop_succ]
      cases here : pass start with
      | leave other =>
          rw [Pass.andThen]
          constructor
          · intro left
            cases left
            exact ⟨start, Nat.le_refl start, by omega,
              fun earlier lower upper => absurd upper (by omega), here⟩
          · rintro ⟨index, lower, -, before, left⟩
            rcases Nat.eq_or_lt_of_le lower with rfl | above
            · exact here.symm.trans left
            · have passed := before start (Nat.le_refl start) above
              rw [here] at passed
              cases passed
      | next _ =>
          rw [Pass.andThen, ih]
          constructor
          · rintro ⟨index, lower, upper, before, left⟩
            refine ⟨index, by omega, by omega, fun earlier from' below => ?_, left⟩
            rcases Nat.eq_or_lt_of_le from' with rfl | above
            · exact here
            · exact before earlier above below
          · rintro ⟨index, lower, upper, before, left⟩
            rcases Nat.eq_or_lt_of_le lower with rfl | above
            · rw [here] at left
              cases left
            · exact ⟨index, above, by omega, fun earlier from' => before earlier (by omega), left⟩

end Loop

/-! ## Loops over a list -/

section ListLoop

universe w

variable {α : Type w} {σ : Type u} {ε : Type v} {body : α → σ → Pass σ ε}

/-- One pass for each item. -/
def listLoop (body : α → σ → Pass σ ε) : List α → σ → Pass σ ε
  | [], state => .next state
  | item :: rest, state => (body item state).andThen (listLoop body rest)

theorem listLoop_append (first rest : List α) (state : σ) :
    listLoop body (first ++ rest) state =
      (listLoop body first state).andThen (listLoop body rest) := by
  induction first generalizing state with
  | nil => rfl
  | cons item first ih =>
      rw [List.cons_append, listLoop, listLoop]
      cases body item state with
      | next state => exact ih state
      | leave result => rfl

/-- Where the passes do not depend on the state, a loop leaves at the first item that does,
and it goes on if none does. -/
theorem listLoop_ends {items : List α} {Left : α → Prop} {Exit : ε → Prop}
    (each : ∀ item ∈ items, ∀ state,
      (body item state).Ends (fun _ => ¬Left item) fun result => Left item ∧ Exit result)
    (state : σ) : (listLoop body items state).Ends (fun _ => ∀ item ∈ items, ¬Left item) Exit := by
  induction items generalizing state with
  | nil => exact fun item member => absurd member List.not_mem_nil
  | cons item rest ih =>
      have pass := each item List.mem_cons_self state
      rw [listLoop]
      generalize body item state = ended at pass ⊢
      cases ended with
      | leave result => exact pass.2
      | next next =>
          apply (ih (fun item member => each item (List.mem_cons_of_mem _ member)) next).mono
          · intro last none other member
            rcases List.mem_cons.mp member with rfl | later
            · exact pass
            · exact none other later
          · exact fun result exits => exits

end ListLoop

end Cromwell.Std
