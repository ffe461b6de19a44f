import Cromwell.Std.Program

/-!
# Programs that emit a trace

Where a program only ever extends a trace kept in its state, it is specified by
what it emits: the part of the trace it adds before it returns, and the part it
has added where it is cut off. The rules carry what was emitted so far from one
part of a program to the next.
-/

namespace Cromwell.Std.Program

universe u v w

variable {σ : Type u} {α β : Type v} {ε : Type w} {view : σ → List ε}
  {program other : Program σ α} {cut cut' : List ε → Prop} {returned returned' : α → List ε → Prop}

/-- From any state the program extends the trace, by a part that meets `returned` where
it returns and `cut` where it is cut off. -/
def Emits (view : σ → List ε) (program : Program σ α) (cut : List ε → Prop)
    (returned : α → List ε → Prop) : Prop :=
  ∀ state, program.Ensures state
    (fun after => ∃ emitted, view after = view state ++ emitted ∧ cut emitted)
    fun result after => ∃ emitted, view after = view state ++ emitted ∧ returned result emitted

/-- What holds of a run that is known by another name. -/
theorem Emits.ends {state : σ} {pass : Pass σ (α × σ)}
    (emits : Emits view program cut returned) (ran : program state = pass) :
    pass.Ends (fun after => ∃ emitted, view after = view state ++ emitted ∧ cut emitted)
      fun outcome => ∃ emitted, view outcome.2 = view state ++ emitted ∧
        returned outcome.1 emitted :=
  ran ▸ emits state

theorem Emits.pure {result : α} (held : returned result []) :
    Emits view (pure result : Program σ α) cut returned :=
  fun state => ⟨[], (List.append_nil (view state)).symm, held⟩

/-- A step that appends one event. -/
theorem Emits.update {change : σ → α × σ} {event : σ → ε}
    (appended : ∀ state, view (change state).2 = view state ++ [event state])
    (held : ∀ state, returned (change state).1 [event state]) :
    Emits view (update change) cut returned :=
  fun state => ⟨[event state], appended state, held state⟩

/-- A step that appends nothing. -/
theorem Emits.unchanged {change : σ → α × σ}
    (same : ∀ state, view (change state).2 = view state)
    (held : ∀ state, returned (change state).1 []) :
    Emits view (Program.update change) cut returned :=
  fun state => ⟨[], by rw [List.append_nil]; exact same state, held state⟩

theorem Emits.mono (emits : Emits view program cut returned)
    (weakerCut : ∀ emitted, cut emitted → cut' emitted)
    (weaker : ∀ result emitted, returned result emitted → returned' result emitted) :
    Emits view program cut' returned' := by
  intro state
  refine (emits state).mono ?_ ?_
  · rintro after ⟨emitted, extended, held⟩
    exact ⟨emitted, extended, weakerCut emitted held⟩
  · rintro result after ⟨emitted, extended, held⟩
    exact ⟨emitted, extended, weaker result emitted held⟩

/-- Two specifications of one program hold of the same trace. -/
theorem Emits.and (first : Emits view program cut returned)
    (second : Emits view program cut' returned') :
    Emits view program (fun emitted => cut emitted ∧ cut' emitted)
      fun result emitted => returned result emitted ∧ returned' result emitted := by
  intro state
  have left := first state
  have right := second state
  unfold Ensures at left right ⊢
  generalize program state = ended at left right ⊢
  cases ended with
  | next after =>
      obtain ⟨emitted, extended, held⟩ := left
      obtain ⟨emitted', extended', held'⟩ := right
      have same : emitted = emitted' := List.append_cancel_left (extended.symm.trans extended')
      exact ⟨emitted, extended, held, same ▸ held'⟩
  | leave outcome =>
      obtain ⟨emitted, extended, held⟩ := left
      obtain ⟨emitted', extended', held'⟩ := right
      have same : emitted = emitted' := List.append_cancel_left (extended.symm.trans extended')
      exact ⟨emitted, extended, held, same ▸ held'⟩

/-- What is known of the result, beside what was emitted. -/
theorem Emits.and_result {known : α → Prop} (emits : Emits view program cut returned)
    (result : ∀ state, program.Ensures state (fun _ => True) fun value _ => known value) :
    Emits view program cut fun value emitted => known value ∧ returned value emitted := by
  intro state
  refine ((result state).and (emits state)).mono (fun _ held => held.2) ?_
  rintro value after ⟨told, emitted, extended, held⟩
  exact ⟨emitted, extended, told, held⟩

/-- A program that returns is never cut off. -/
theorem Emits.of_returns (emits : Emits view program (fun _ => True) returned)
    (returns : Returns program) : Emits view program cut returned := by
  intro state
  obtain ⟨result, after, run, -⟩ := (returns state).returns
  exact ensures_of_run run ((emits state).of_returned run)

/-- The rule of composition: the second part is proved for what the first emitted. -/
theorem Emits.andThen {rest : α → Program σ β} {returnedRest : β → List ε → Prop}
    (first : Emits view program cut returned)
    (second : ∀ result emitted, returned result emitted →
      Emits view (rest result) (fun later => cut (emitted ++ later))
        fun value later => returnedRest value (emitted ++ later)) :
    Emits view (program >>= rest) cut returnedRest := by
  intro state
  refine (first state).andThen ?_
  rintro result after ⟨emitted, extended, held⟩
  refine (second result emitted held after).mono ?_ ?_
  · rintro cutOff ⟨later, more, heldCut⟩
    refine ⟨emitted ++ later, ?_, heldCut⟩
    rw [more, extended, List.append_assoc]
  · rintro value final ⟨later, more, heldRest⟩
    refine ⟨emitted ++ later, ?_, heldRest⟩
    rw [more, extended, List.append_assoc]

/-- A first part that emits nothing. -/
theorem Emits.silently {rest : α → Program σ β} {returnedRest : β → List ε → Prop}
    (first : Emits view program cut fun _ emitted => emitted = [])
    (second : ∀ result, Emits view (rest result) cut returnedRest) :
    Emits view (program >>= rest) cut returnedRest := by
  refine Emits.andThen first ?_
  rintro result _ rfl
  exact second result

theorem Emits.ite {condition : Prop} [Decidable condition]
    (first : condition → Emits view program cut returned)
    (second : ¬condition → Emits view other cut returned) :
    Emits view (if condition then program else other) cut returned := by
  by_cases holds : condition
  · rw [if_pos holds]
    exact first holds
  · rw [if_neg holds]
    exact second holds

/-- The rule of `while`: the invariant speaks of what the loop has emitted so far. -/
theorem Emits.loop {body : β → Program σ (Pass β α)} (Inv : β → List ε → Prop)
    (cutOff : ∀ locals emitted, Inv locals emitted → cut emitted)
    (preserved : ∀ locals emitted, Inv locals emitted →
      Emits view (body locals) (fun later => cut (emitted ++ later))
        fun ended later => ended.Ends (fun next => Inv next (emitted ++ later))
          fun result => returned result (emitted ++ later))
    (fuel : Nat) {locals : β} (entered : Inv locals []) :
    Emits view (loop body fuel locals) cut returned := by
  intro start
  refine loop_ensures
    (fun _ locals state => ∃ emitted, view state = view start ++ emitted ∧ Inv locals emitted)
    ?_ ?_ ⟨[], (List.append_nil (view start)).symm, entered⟩
  · rintro locals state ⟨emitted, extended, held⟩
    exact ⟨emitted, extended, cutOff locals emitted held⟩
  · rintro _ locals state ⟨emitted, extended, held⟩
    refine (preserved locals emitted held state).mono ?_ ?_
    · rintro after ⟨later, more, heldCut⟩
      refine ⟨emitted ++ later, ?_, heldCut⟩
      rw [more, extended, List.append_assoc]
    · rintro ended after ⟨later, more, heldEnd⟩
      have total : view after = view start ++ (emitted ++ later) := by
        rw [more, extended, List.append_assoc]
      exact heldEnd.mono (fun next inv => ⟨emitted ++ later, total, inv⟩)
        fun result met => ⟨emitted ++ later, total, met⟩

/-- What has been emitted is not taken back. -/
theorem Emits.stable (emits : Emits view program cut returned) (event : ε) :
    Stable (fun state => event ∈ view state) program := by
  intro state member
  refine (emits state).mono ?_ ?_
  · rintro after ⟨emitted, extended, -⟩
    rw [extended]
    exact List.mem_append_left emitted member
  · rintro _ after ⟨emitted, extended, -⟩
    rw [extended]
    exact List.mem_append_left emitted member

/-! ## Programs that emit events of one kind -/

variable {kind : ε → Prop}

/-- However the program fares, each event it emits is of the given kind. -/
def EmitsOnly (view : σ → List ε) (kind : ε → Prop) (program : Program σ α) : Prop :=
  Emits view program (fun emitted => ∀ event ∈ emitted, kind event)
    fun _ emitted => ∀ event ∈ emitted, kind event

theorem EmitsOnly.weaken {other : ε → Prop} (only : EmitsOnly view kind program)
    (weaker : ∀ event, kind event → other event) : EmitsOnly view other program :=
  Emits.mono only (fun _ held event member => weaker event (held event member))
    fun _ _ held event member => weaker event (held event member)

theorem EmitsOnly.emits (only : EmitsOnly view kind program) :
    Emits view program (fun _ => True) fun _ emitted => ∀ event ∈ emitted, kind event :=
  Emits.mono only (fun _ _ => trivial) fun _ _ held => held

theorem EmitsOnly.pure (result : α) : EmitsOnly view kind (pure result : Program σ α) :=
  Emits.pure (fun _ member => absurd member List.not_mem_nil)

theorem EmitsOnly.update {change : σ → α × σ} {event : σ → ε}
    (appended : ∀ state, view (change state).2 = view state ++ [event state])
    (ofKind : ∀ state, kind (event state)) : EmitsOnly view kind (update change) := by
  refine Emits.update appended ?_
  intro state other member
  rw [List.mem_singleton.mp member]
  exact ofKind state

theorem EmitsOnly.unchanged {change : σ → α × σ}
    (same : ∀ state, view (change state).2 = view state) :
    EmitsOnly view kind (Program.update change) :=
  Emits.unchanged same fun _ _ member => absurd member List.not_mem_nil

theorem EmitsOnly.bind {rest : α → Program σ β} (first : EmitsOnly view kind program)
    (second : ∀ result, EmitsOnly view kind (rest result)) :
    EmitsOnly view kind (program >>= rest) := by
  refine Emits.andThen first ?_
  intro result emitted ofKind
  refine Emits.mono (second result) ?_ ?_
  · exact fun later more event member =>
      (List.mem_append.mp member).elim (ofKind event) (more event)
  · exact fun _ later more event member =>
      (List.mem_append.mp member).elim (ofKind event) (more event)

theorem EmitsOnly.ite {condition : Prop} [Decidable condition]
    (first : EmitsOnly view kind program) (second : EmitsOnly view kind other) :
    EmitsOnly view kind (if condition then program else other) :=
  Emits.ite (fun _ => first) fun _ => second

theorem EmitsOnly.loop {body : β → Program σ (Pass β α)}
    (only : ∀ locals, EmitsOnly view kind (body locals)) (fuel : Nat) (locals : β) :
    EmitsOnly view kind (loop body fuel locals) := by
  refine Emits.loop (fun _ emitted => ∀ event ∈ emitted, kind event) (fun _ _ held => held) ?_ fuel
    fun _ member => absurd member List.not_mem_nil
  intro locals emitted ofKind
  refine Emits.mono (only locals) ?_ ?_
  · exact fun later more event member =>
      (List.mem_append.mp member).elim (ofKind event) (more event)
  · intro ended later more
    have both : ∀ event ∈ emitted ++ later, kind event := fun event member =>
      (List.mem_append.mp member).elim (ofKind event) (more event)
    cases ended with
    | next _ => exact both
    | leave _ => exact both

end Cromwell.Std.Program
