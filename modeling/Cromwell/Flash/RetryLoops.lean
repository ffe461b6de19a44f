import Cromwell.Flash.Cycles
import Cromwell.Std.RetryCounter

/-!
# Loops that retry

The erase loop and the program loop have one shape. A pass looks at one byte. If the
byte reads as it should, the loop moves on to the next one; otherwise one operation is
issued for it, unless its tries have run out, and the byte is looked at again. The
verify loop is of the same shape and never tries anything. As long as the addresses do
not wrap, the loop never moves back, so a retry counter does what it is for.
-/

namespace Cromwell.Flash

open Cromwell.Std Cromwell.Std.Program

/-! ## What a loop has done -/

/-- What the operations for a region and the reads between them come to. -/
structure Kept (start finish : Nat) (group : Nat → Nat) (kind : Operation → Prop)
    (operations : List Operation) (reads : List Nat) : Prop where
  ofKind : ∀ operation ∈ operations, kind operation
  inside : ∀ operation ∈ operations, start ≤ operation.address ∧ operation.address < finish
  few : ∀ g, (operations.countP fun operation => group operation.address = g) ≤ 4
  ordered : (operations.map Operation.address).Pairwise (· ≤ ·)
  rising : reads.Pairwise (· ≤ ·)

/-- Where a loop is, and how often it has tried. -/
structure Position where
  dw : UInt32
  dwLen : UInt32
  counter : RetryCounter Nat

/-- What a loop issues, and in which groups it counts its tries. -/
structure RetryRule where
  group : Nat → Nat
  monotone : Monotone group
  kind : Operation → Prop

namespace RetryRule

variable (rule : RetryRule)

/-- The position after a try. -/
def retried (position : Position) : Position :=
  { position with counter := position.counter.count rule.group 4 position.dw.toNat }

/-- The next position. -/
def advanced (position : Position) : Position :=
  { position with dw := position.dw + 1, dwLen := position.dwLen - 1 }

/-- The writes of one pass: none, or those of one operation while tries are left. -/
def attempts (position : Position) : Set (List (Nat × Byte)) :=
  {cycles | cycles = [] ∨ (rule.retried position).counter.left ≠ 0 ∧
    cycles ∈ operationsAt rule.kind position.dw.toNat}

/-- A loop has come to a place between `start` and `finish`. -/
structure Progressed (start finish place : Nat) (position : Position)
    (operations : List Operation) (reads : List Nat) : Prop where
  left : place + position.dwLen.toNat = finish
  lower : start ≤ place
  dw : position.dwLen ≠ 0 → position.dw.toNat = place
  passed : ∀ address ∈ reads, address ≤ place
  counts : RetryCounter.Counts rule.group 4 position.counter place
    (operations.map Operation.address)
  ofKind : ∀ operation ∈ operations, rule.kind operation
  inside : ∀ operation ∈ operations, start ≤ operation.address ∧ operation.address < finish
  rising : reads.Pairwise (· ≤ ·)

variable {rule} {start finish place : Nat} {position : Position} {operations : List Operation}
  {reads later : List Nat}

theorem Progressed.kept
    (progressed : rule.Progressed start finish place position operations reads) :
    Kept start finish rule.group rule.kind operations reads where
  ofKind := progressed.ofKind
  inside := progressed.inside
  few g := by
    have few := progressed.counts.few g
    rwa [List.countP_map] at few
  ordered := progressed.counts.ordered
  rising := progressed.rising

theorem Progressed.more (progressed : rule.Progressed start finish place position operations reads)
    (more : position.dwLen ≠ 0) : place < finish := by
  have left := progressed.left
  have positive : 0 < position.dwLen.toNat :=
    Nat.pos_of_ne_zero fun zero => more (UInt32.toNat_inj.mp zero)
  omega

/-- Reads at the current place. -/
theorem Progressed.look (progressed : rule.Progressed start finish place position operations reads)
    (more : position.dwLen ≠ 0) (here : ∀ address ∈ later, address = position.dw.toNat) :
    rule.Progressed start finish place position operations (reads ++ later) := by
  rw [progressed.dw more] at here
  exact { progressed with
    passed := by
      intro address member
      rcases List.mem_append.mp member with earlier | now
      · exact progressed.passed address earlier
      · exact Nat.le_of_eq (here address now)
    rising := by
      rw [List.pairwise_append]
      refine ⟨progressed.rising, ?_, ?_⟩
      · apply List.pairwise_of_forall_mem_list
        intro address member other member'
        rw [here address member, here other member']
      · intro address member other member'
        rw [here other member']
        exact progressed.passed address member }

/-- An operation at the current place. -/
theorem Progressed.retry (progressed : rule.Progressed start finish place position operations reads)
    (more : position.dwLen ≠ 0) (tries : (rule.retried position).counter.left ≠ 0)
    {operation : Operation} (ofKind : rule.kind operation)
    (here : operation.address = position.dw.toNat) :
    rule.Progressed start finish place (rule.retried position) (operations ++ [operation])
      reads := by
  have dw := progressed.dw more
  have upper := progressed.more more
  rw [retried, dw] at tries
  rw [dw] at here
  exact {
    left := progressed.left
    lower := progressed.lower
    dw := fun _ => dw
    passed := progressed.passed
    counts := by
      rw [retried, dw, List.map_append, List.map_singleton, here]
      exact progressed.counts.retry tries
    ofKind := by
      intro other member
      rcases List.mem_append.mp member with earlier | now
      · exact progressed.ofKind other earlier
      · rw [List.mem_singleton.mp now]
        exact ofKind
    inside := by
      intro other member
      rcases List.mem_append.mp member with earlier | now
      · exact progressed.inside other earlier
      · rw [List.mem_singleton.mp now, here]
        exact ⟨progressed.lower, upper⟩
    rising := progressed.rising }

/-- The loop moves on. -/
theorem Progressed.advance
    (progressed : rule.Progressed start finish place position operations reads)
    (bounded : finish ≤ 2 ^ 32) (more : position.dwLen ≠ 0) :
    rule.Progressed start finish (place + 1) (advanced position) operations reads := by
  have dw := progressed.dw more
  have left := progressed.left
  have lower := progressed.lower
  have one : (1 : UInt32).toNat = 1 := rfl
  have shorter : (advanced position).dwLen.toNat + 1 = position.dwLen.toNat := by
    have positive := progressed.more more
    have bound := position.dwLen.toNat_lt
    rw [advanced, UInt32.toNat_sub]
    omega
  exact {
    left := by omega
    lower := by omega
    dw := by
      intro again
      have rest : 0 < (advanced position).dwLen.toNat :=
        Nat.pos_of_ne_zero fun zero => again (UInt32.toNat_inj.mp zero)
      have sum : (advanced position).dw.toNat = (position.dw.toNat + (1 : UInt32).toNat) % 2 ^ 32 :=
        UInt32.toNat_add _ _
      rw [sum, dw, one]
      omega
    passed := fun address member => Nat.le_succ_of_le (progressed.passed address member)
    counts := progressed.counts.advance rule.monotone (Nat.le_succ place)
    ofKind := progressed.ofKind
    inside := progressed.inside
    rising := progressed.rising }

/-- What a pass that is the last one has issued. -/
theorem Progressed.attempt
    (progressed : rule.Progressed start finish place position operations reads)
    (more : position.dwLen ≠ 0) {sequence : List (Nat × Byte)}
    (attempt : sequence ∈ rule.attempts position) :
    ∃ all, Kept start finish rule.group rule.kind all reads ∧
      all.flatMap Operation.cycles = operations.flatMap Operation.cycles ++ sequence := by
  rcases attempt with rfl | ⟨tries, operation, ofKind, here, rfl⟩
  · exact ⟨operations, progressed.kept, (List.append_nil _).symm⟩
  · exact ⟨operations ++ [operation], (progressed.retry more tries ofKind here).kept, by simp⟩

end RetryRule

/-! ## Runs -/

section Runs

variable {σ β : Type} (rule : RetryRule) (position : β → Position)

/-- A pass that was cut off: its operation may not be complete. -/
def CutOff (current : Position) (cycles : List Cycle) : Prop :=
  ReadsAt current.dw.toNat cycles ∧ ∃ sequence ∈ rule.attempts current, writes cycles <+: sequence

/-- A pass that moves on without an operation, tries once, or is the last one. -/
def Ended (current : Position) (ended : Pass β Bool) (cycles : List Cycle) : Prop :=
  ReadsAt current.dw.toNat cycles ∧ writes cycles ∈ rule.attempts current ∧
    ended.Ends
      (fun next => position next = RetryRule.advanced current ∧ writes cycles = [] ∨
        position next = rule.retried current ∧ (rule.retried current).counter.left ≠ 0 ∧
          writes cycles ∈ operationsAt rule.kind current.dw.toNat)
      fun _ => True

/-- The passes of a loop that follows the rule. -/
structure Follows (pass : β → Driver (σ × List Cycle) (Pass β Bool)) : Prop where
  finished : ∀ locals, (position locals).dwLen = 0 → pass locals = pure (.leave true)
  working : ∀ locals, (position locals).dwLen ≠ 0 → Emits FlashState.cycles (pass locals)
    (CutOff rule (position locals)) (Ended rule position (position locals))

/-- The writes of one try, which is not made when the tries have run out. -/
def rounds (current : Position) : Set (List (Nat × Byte)) :=
  {cycles | (rule.retried current).counter.left = 0 ∧ cycles = [] ∨
    (rule.retried current).counter.left ≠ 0 ∧ cycles ∈ operationsAt rule.kind current.dw.toNat}

section Passes

variable {rule} {position} {bus : FlashBus σ} {current : Position}
  {step : Driver (σ × List Cycle) (Pass β Bool)}

/-- A pass starts with a look at its byte. -/
theorem looked (current : Position) {rest : Byte → Driver (σ × List Cycle) (Pass β Bool)}
    (more : ∀ b, Emits FlashState.cycles (rest b) (CutOff rule current)
      (Ended rule position current)) :
    Emits FlashState.cycles (readFlash bus.traced current.dw >>= rest) (CutOff rule current)
      (Ended rule position current) := by
  refine Emits.andThen (Emits.mono (readFlash_quiet bus current.dw).issues ?_
    fun _ _ held => held) ?_
  · rintro cycles ⟨here, sequence, rfl, front⟩
    exact ⟨here, [], .inl rfl, front⟩
  · rintro b cycles ⟨here, nothing⟩
    have none : writes cycles = [] := nothing
    refine Emits.mono (more b) ?_ ?_
    · rintro later ⟨there, sequence, attempt, front⟩
      refine ⟨here.append there, sequence, attempt, ?_⟩
      rw [writes_append, none, List.nil_append]
      exact front
    · rintro ended later ⟨there, attempt, next⟩
      have same : writes (cycles ++ later) = writes later := by
        rw [writes_append, none, List.nil_append]
      exact ⟨here.append there, same.symm ▸ attempt, same.symm ▸ next⟩

/-- A try. -/
theorem ended_round (issues : Issues current.dw.toNat (rounds rule current) step)
    (result : ∀ state, step.Ensures state (fun _ => True) fun ended _ => ended.Ends
      (fun next => position next = rule.retried current ∧
        (rule.retried current).counter.left ≠ 0) fun _ => True) :
    Emits FlashState.cycles step (CutOff rule current) (Ended rule position current) := by
  have attempts : rounds rule current ⊆ rule.attempts current := by
    rintro cycles (⟨-, nothing⟩ | tried)
    · exact .inl nothing
    · exact .inr tried
  refine Emits.mono (Emits.and_result issues result) ?_ ?_
  · rintro cycles ⟨here, sequence, round, front⟩
    exact ⟨here, sequence, attempts round, front⟩
  · rintro ended cycles ⟨next, here, round⟩
    refine ⟨here, attempts round, Pass.Ends.mono next ?_ fun _ held => held⟩
    rintro next ⟨moved, tries⟩
    rcases round with ⟨spent, -⟩ | ⟨-, operation⟩
    · exact absurd spent tries
    · exact .inr ⟨moved, tries, operation⟩

/-- A step to the next byte. -/
theorem ended_advance (quiet : Quiet current.dw.toNat step)
    (result : ∀ state, step.Ensures state (fun _ => True) fun ended _ => ended.Ends
      (fun next => position next = RetryRule.advanced current) fun _ => True) :
    Emits FlashState.cycles step (CutOff rule current) (Ended rule position current) := by
  refine Emits.mono (Emits.and_result quiet.issues result) ?_ ?_
  · rintro cycles ⟨here, sequence, rfl, front⟩
    exact ⟨here, [], .inl rfl, front⟩
  · rintro ended cycles ⟨next, here, nothing⟩
    refine ⟨here, .inl nothing, Pass.Ends.mono next ?_ fun _ held => held⟩
    exact fun next moved => .inl ⟨moved, nothing⟩

/-- An operation with reads behind it. -/
theorem Issues.quietly {α γ : Type} {address : Nat} {sequences : Set (List (Nat × Byte))}
    {first : Driver (σ × List Cycle) α} {rest : α → Driver (σ × List Cycle) γ}
    (issues : Issues address sequences first) (quiet : ∀ result, Quiet address (rest result)) :
    Issues address sequences (first >>= rest) := by
  refine (issues.bind (fun result => (quiet result).issues) (Set.singleton_nonempty [])).mono ?_
  rw [Set.image2_singleton_right]
  rintro _ ⟨sequence, member, rfl⟩
  simpa using member

end Passes

variable {rule} {position} {pass : β → Driver (σ × List Cycle) (Pass β Bool)} {start finish : Nat}

section Progress

variable {place : Nat} {operations : List Operation} {current : Position}
  {cycles later : List Cycle}

/-- A pass that is the last one, or is cut off, has made one attempt more at most. -/
theorem RetryRule.Progressed.last
    (progressed : rule.Progressed start finish place current operations (reads cycles))
    (issued : writes cycles = operations.flatMap Operation.cycles) (more : current.dwLen ≠ 0)
    (here : ReadsAt current.dw.toNat later) {sequence : List (Nat × Byte)}
    (attempt : sequence ∈ rule.attempts current) :
    ∃ all, Kept start finish rule.group rule.kind all (reads (cycles ++ later)) ∧
      all.flatMap Operation.cycles = writes cycles ++ sequence := by
  obtain ⟨all, kept, total⟩ := (progressed.look more here).attempt more attempt
  refine ⟨all, ?_, ?_⟩
  · rw [reads_append]
    exact kept
  · rw [total, issued]

/-- A pass that is not the last one moves on, or has tried once. -/
theorem RetryRule.Progressed.onward {next : β} (bounded : finish ≤ 2 ^ 32)
    (progressed : rule.Progressed start finish place current operations (reads cycles))
    (issued : writes cycles = operations.flatMap Operation.cycles) (more : current.dwLen ≠ 0)
    (ended : Ended rule position current (.next next) later) :
    ∃ place operations,
      rule.Progressed start finish place (position next) operations (reads (cycles ++ later)) ∧
        writes (cycles ++ later) = operations.flatMap Operation.cycles := by
  obtain ⟨here, _, next⟩ := ended
  have looked := progressed.look more here
  rcases next with ⟨moved, nothing⟩ | ⟨same, tries, operation, ofKind, at', cyclesOf⟩
  · refine ⟨place + 1, operations, ?_, ?_⟩
    · rw [moved, reads_append]
      exact looked.advance bounded more
    · rw [writes_append, nothing, List.append_nil]
      exact issued
  · refine ⟨place, operations ++ [operation], ?_, ?_⟩
    · rw [same, reads_append]
      exact looked.retry more tries ofKind at'
    · rw [writes_append, issued, cyclesOf]
      simp

end Progress

/-- Whatever the flash answers, the loop keeps to its rule. -/
theorem Follows.emits (follows : Follows rule position pass) (bounded : finish ≤ 2 ^ 32)
    {locals : β} (entered : rule.Progressed start finish start (position locals) [] [])
    (fuel : Nat) :
    Emits FlashState.cycles (loop pass fuel locals)
      (fun cycles => ∃ operations,
        Kept start finish rule.group rule.kind operations (reads cycles) ∧
          writes cycles <+: operations.flatMap Operation.cycles)
      fun _ cycles => ∃ operations,
        Kept start finish rule.group rule.kind operations (reads cycles) ∧
          writes cycles = operations.flatMap Operation.cycles := by
  refine Emits.loop (fun locals cycles => ∃ place operations,
    rule.Progressed start finish place (position locals) operations (reads cycles) ∧
      writes cycles = operations.flatMap Operation.cycles) ?_ ?_ fuel
    ⟨start, [], entered, rfl⟩
  · rintro locals cycles ⟨place, operations, progressed, issued⟩
    exact ⟨operations, progressed.kept, issued ▸ List.prefix_rfl⟩
  · rintro locals cycles ⟨place, operations, progressed, issued⟩
    by_cases done : (position locals).dwLen = 0
    · rw [follows.finished locals done]
      refine Emits.pure ⟨operations, ?_, ?_⟩
      · rw [List.append_nil]
        exact progressed.kept
      · rw [List.append_nil]
        exact issued
    · refine Emits.mono (follows.working locals done) ?_ ?_
      · rintro later ⟨here, sequence, attempt, front⟩
        obtain ⟨all, kept, total⟩ := progressed.last issued done here attempt
        refine ⟨all, kept, ?_⟩
        rw [writes_append, total]
        exact (List.prefix_append_right_inj _).mpr front
      · intro ended later held
        cases ended with
        | leave _ =>
            obtain ⟨here, attempt, _⟩ := held
            obtain ⟨all, kept, total⟩ := progressed.last issued done here attempt
            exact ⟨all, kept, (writes_append _ _).trans total.symm⟩
        | next _ => exact progressed.onward bounded issued done held

/-! ## The way to the end -/

/-- The last reads, as many as the bound allows, are polls of one address. -/
def StuckPolling (fuel : Nat) (cycles : List Cycle) : Prop :=
  ∃ address, List.replicate fuel (Cycle.read address) <:+ cycles

/-- The step is cut off in a polling loop only. -/
def Waits {α : Type} (fuel : Nat) (step : Driver (σ × List Cycle) α) : Prop :=
  ∀ state, step.Ensures state (fun cutOff => StuckPolling fuel cutOff.cycles) fun _ _ => True

theorem Waits.of_returns {α : Type} {fuel : Nat} {step : Driver (σ × List Cycle) α}
    (returns : Returns step) : Waits fuel step :=
  fun state => (returns state).mono (fun _ impossible => impossible.elim) fun _ _ held => held

theorem Waits.bind {α γ : Type} {fuel : Nat} {step : Driver (σ × List Cycle) α}
    {rest : α → Driver (σ × List Cycle) γ} (first : Waits fuel step)
    (second : ∀ result, Waits fuel (rest result)) : Waits fuel (step >>= rest) :=
  fun state => (first state).andThen fun result after _ => second result after

theorem Waits.ite {α : Type} {fuel : Nat} {condition : Prop} [Decidable condition]
    {step other : Driver (σ × List Cycle) α} (first : Waits fuel step) (second : Waits fuel other) :
    Waits fuel (if condition then step else other) := by
  split
  · exact first
  · exact second

/-- A polling loop reads one address in every pass. -/
theorem Waits.poll {α γ : Type} (address fuel : Nat)
    {body : γ → Driver (σ × List Cycle) (Pass γ α)}
    (reads : ∀ locals state, (body locals).Ensures state (fun _ => False) fun ended after =>
      ended.Ends (fun _ => after.cycles = state.cycles ++ [.read address]) fun _ => True)
    (locals : γ) : Waits fuel (loop body fuel locals) := by
  intro start
  refine loop_ensures (fun left _ state => ∃ passes, passes + left = fuel ∧
    List.replicate passes (Cycle.read address) <:+ state.cycles) ?_ ?_
    ⟨0, Nat.zero_add fuel, List.nil_suffix⟩
  · rintro _ state ⟨passes, total, polled⟩
    rw [Nat.add_zero] at total
    exact ⟨address, total ▸ polled⟩
  · rintro left locals state ⟨passes, total, polled⟩
    refine (reads locals state).mono (fun _ impossible => impossible.elim) ?_
    intro ended after next
    refine Pass.Ends.mono next ?_ fun _ held => held
    intro locals' extended
    refine ⟨passes + 1, by omega, ?_⟩
    rw [extended, List.replicate_succ']
    exact List.suffix_append_self_iff.mpr polled

/-- A bound on the passes that are left. -/
def RetryRule.passes (rule : RetryRule) (position : Position) : Nat :=
  6 * position.dwLen.toNat + position.counter.tries rule.group 4 position.dw.toNat

theorem RetryRule.passes_advanced {place : Position} (live : place.counter.Live 4)
    (more : place.dwLen ≠ 0) :
    rule.passes (RetryRule.advanced place) < rule.passes place := by
  have positive : 0 < place.dwLen.toNat :=
    Nat.pos_of_ne_zero fun zero => more (UInt32.toNat_inj.mp zero)
  have bound := place.dwLen.toNat_lt
  have tries : place.counter.tries rule.group 4 (place.dw + 1).toNat ≤ 4 + 1 :=
    live.tries_le (place.dw + 1).toNat
  have shorter : (place.dwLen - 1).toNat = place.dwLen.toNat - 1 := toNat_pred more
  unfold passes advanced
  dsimp only
  omega

/-- The loop comes to an end, if its polling loops do. -/
theorem Follows.waits (follows : Follows rule position pass) {fuel bound : Nat}
    (waits : ∀ locals, Waits fuel (pass locals)) {locals : β}
    (live : (position locals).counter.Live 4) (enough : rule.passes (position locals) < bound) :
    Waits fuel (loop pass bound locals) := by
  intro start
  refine loop_ensures (fun bound locals _ =>
    (position locals).counter.Live 4 ∧ rule.passes (position locals) < bound) ?_ ?_ ⟨live, enough⟩
  · rintro locals state ⟨-, impossible⟩
    exact absurd impossible (Nat.not_lt_zero _)
  · rintro bound locals state ⟨live, enough⟩
    by_cases done : (position locals).dwLen = 0
    · rw [follows.finished locals done]
      trivial
    · refine ((waits locals state).and (follows.working locals done state)).mono
        (fun _ held => held.1) ?_
      rintro ended after ⟨-, later, -, -, -, next⟩
      refine Pass.Ends.mono next ?_ fun _ held => held
      rintro locals' (⟨moved, -⟩ | ⟨same, tries, -⟩)
      · rw [moved]
        have fewer : rule.passes (RetryRule.advanced (position locals)) <
            rule.passes (position locals) := RetryRule.passes_advanced live done
        exact ⟨live, by omega⟩
      · rw [same]
        have fewer : (rule.retried (position locals)).counter.tries rule.group 4
            (position locals).dw.toNat <
              (position locals).counter.tries rule.group 4 (position locals).dw.toNat :=
          live.tries_count
        refine ⟨live.count tries, ?_⟩
        have same : (rule.retried (position locals)).dwLen = (position locals).dwLen := rfl
        have here : (rule.retried (position locals)).dw = (position locals).dw := rfl
        unfold RetryRule.passes at enough ⊢
        rw [same, here]
        omega

end Runs

end Cromwell.Flash
