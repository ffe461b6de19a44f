import Cromwell.Usb.Timers

/-!
# Timers are neither lost nor repeated

As long as a free slot is found for every timer that is added, the table holds
each pending timer once and nothing else. A pass calls what it finds: a timer
that is pending when the pass begins keeps its slot until it is called or
deleted, and the pass cannot go by that slot without calling it.
-/

namespace Cromwell.Usb

open Cromwell.Std

variable {τ : Type}

/-! ## The table -/

namespace TimerTable

variable {table : TimerTable τ} {wanted : Option τ} {n : Nat} {t : τ}

@[simp] theorem setSlot_same (content : Option τ) :
    (table.setSlot n content).mainTimerList n = content := by
  simp [setSlot]

theorem setSlot_other {k : Nat} (different : k ≠ n) (content : Option τ) :
    (table.setSlot n content).mainTimerList k = table.mainTimerList k := by
  simp [setSlot, different]

@[simp] theorem setSlot_function (content : Option τ) :
    (table.setSlot n content).function = table.function := rfl

@[simp] theorem setSlot_expires (content : Option τ) :
    (table.setSlot n content).expires = table.expires := rfl

theorem due_eq_some (due : table.due n = some t) : table.mainTimerList n = some t := by
  unfold TimerTable.due at due
  split at due
  · next held =>
    split_ifs at due
    rw [held, due]
  · cases due

theorem due_of_armed (held : table.mainTimerList n = some t) (function : table.function t = true)
    (expires : table.expires t ≠ 0) : table.due n = some t := by
  simp [TimerTable.due, held, function, expires]

variable [DecidableEq τ]

@[simp] theorem setExpires_mainTimerList (ex : Int32) :
    (table.setExpires t ex).mainTimerList = table.mainTimerList := rfl

@[simp] theorem setExpires_function (ex : Int32) :
    (table.setExpires t ex).function = table.function := rfl

theorem firstSlot_some (found : table.firstSlot wanted = some n) :
    n < maxTimers ∧ table.mainTimerList n = wanted := by
  have member := List.mem_of_find?_eq_some found
  have holds := List.find?_some found
  simp at member holds
  exact ⟨member, holds⟩

theorem firstSlot_none (missing : table.firstSlot wanted = none) (n : Nat)
    (inside : n < maxTimers) : table.mainTimerList n ≠ wanted := by
  unfold firstSlot at missing
  rw [List.find?_eq_none] at missing
  simpa using missing n (List.mem_range.mpr inside)

/-- A timer is added to a free slot, if there is one. -/
theorem addTimer_cases (table : TimerTable τ) (t : τ) :
    (∃ n < maxTimers, table.mainTimerList n = none ∧
      table.addTimer t = table.setSlot n (some t)) ∨
    (∀ n < maxTimers, table.mainTimerList n ≠ none) ∧ table.addTimer t = table := by
  unfold addTimer
  split
  · next n found =>
    obtain ⟨inside, free⟩ := firstSlot_some found
    exact .inl ⟨n, inside, free, rfl⟩
  · next missing => exact .inr ⟨firstSlot_none missing, rfl⟩

/-- A timer is removed from a slot that holds it, if there is one. -/
theorem delTimer_cases (table : TimerTable τ) (t : τ) :
    (∃ n < maxTimers, table.mainTimerList n = some t ∧
      table.delTimer t = table.setSlot n none) ∨
    (∀ n < maxTimers, table.mainTimerList n ≠ some t) ∧ table.delTimer t = table := by
  unfold delTimer
  split
  · next n found =>
    obtain ⟨inside, held⟩ := firstSlot_some found
    exact .inl ⟨n, inside, held, rfl⟩
  · next missing => exact .inr ⟨firstSlot_none missing, rfl⟩

end TimerTable

/-! ## The table holds what has been asked for -/

/-- Each pending timer stands in one slot, and nothing else stands in the table. -/
structure Lists (table : TimerTable τ) (pending : τ → Bool) : Prop where
  single : ∀ {i j t}, i < maxTimers → j < maxTimers → table.mainTimerList i = some t →
    table.mainTimerList j = some t → i = j
  listed : ∀ t, pending t = true ↔ ∃ n < maxTimers, table.mainTimerList n = some t

namespace Lists

variable {table : TimerTable τ} {pending : τ → Bool} {n : Nat} {t : τ}

theorem congr (lists : Lists table pending) {other : TimerTable τ}
    (same : other.mainTimerList = table.mainTimerList) : Lists other pending := by
  constructor
  · rw [same]
    exact lists.single
  · rw [same]
    exact lists.listed

variable [DecidableEq τ]

theorem insert (lists : Lists table pending) (inside : n < maxTimers)
    (free : table.mainTimerList n = none) (fresh : pending t = false) :
    Lists (table.setSlot n (some t)) (Function.update pending t true) := by
  have absent : ∀ k < maxTimers, table.mainTimerList k ≠ some t := by
    intro k below' held
    have listed := (lists.listed t).mpr ⟨k, below', held⟩
    rw [fresh] at listed
    cases listed
  constructor
  · intro i j other lower upper held held'
    by_cases first : i = n <;> by_cases second : j = n
    · rw [first, second]
    · rw [first, TimerTable.setSlot_same] at held
      rw [TimerTable.setSlot_other second] at held'
      cases held
      exact absurd held' (absent j upper)
    · rw [second, TimerTable.setSlot_same] at held'
      rw [TimerTable.setSlot_other first] at held
      cases held'
      exact absurd held (absent i lower)
    · rw [TimerTable.setSlot_other first] at held
      rw [TimerTable.setSlot_other second] at held'
      exact lists.single lower upper held held'
  · intro other
    by_cases same : other = t
    · subst same
      simp only [Function.update_self, true_iff]
      exact ⟨n, inside, TimerTable.setSlot_same _⟩
    · rw [Function.update_of_ne same, lists.listed]
      constructor
      · rintro ⟨k, below', held⟩
        have different : k ≠ n := by
          rintro rfl
          rw [free] at held
          cases held
        exact ⟨k, below', by rwa [TimerTable.setSlot_other different]⟩
      · rintro ⟨k, below', held⟩
        have different : k ≠ n := by
          rintro rfl
          rw [TimerTable.setSlot_same] at held
          cases held
          exact same rfl
        exact ⟨k, below', by rwa [TimerTable.setSlot_other different] at held⟩

theorem remove (lists : Lists table pending) (inside : n < maxTimers)
    (held : table.mainTimerList n = some t) :
    Lists (table.setSlot n none) (Function.update pending t false) := by
  have kept : ∀ {k other}, (table.setSlot n none).mainTimerList k = some other →
      k ≠ n ∧ table.mainTimerList k = some other := by
    intro k other stands
    have different : k ≠ n := by
      rintro rfl
      rw [TimerTable.setSlot_same] at stands
      cases stands
    exact ⟨different, by rwa [TimerTable.setSlot_other different] at stands⟩
  constructor
  · intro i j other lower upper stands stands'
    exact lists.single lower upper (kept stands).2 (kept stands').2
  · intro other
    by_cases same : other = t
    · subst same
      simp only [Function.update_self, Bool.false_eq_true, false_iff]
      rintro ⟨k, below', stands⟩
      obtain ⟨different, before⟩ := kept stands
      exact different (lists.single below' inside before held)
    · rw [Function.update_of_ne same, lists.listed]
      constructor
      · rintro ⟨k, below', stands⟩
        have different : k ≠ n := by
          rintro rfl
          rw [held] at stands
          cases stands
          exact same rfl
        exact ⟨k, below', by rwa [TimerTable.setSlot_other different]⟩
      · rintro ⟨k, below', stands⟩
        exact ⟨k, below', (kept stands).2⟩

/-- `del_timer` removes a timer, whether it is there or not. -/
theorem delTimer (lists : Lists table pending) (t : τ) :
    Lists (table.delTimer t) (Function.update pending t false) := by
  rcases table.delTimer_cases t with ⟨n, inside, held, deleted⟩ | ⟨absent, deleted⟩
  · rw [deleted]
    exact lists.remove inside held
  · have notPending : pending t = false := by
      by_contra pends
      obtain ⟨n, inside, held⟩ := (lists.listed t).mp (by simpa using pends)
      exact absent n inside held
    rw [deleted, ← notPending, Function.update_eq_self]
    exact lists

/-- `add_timer` adds a timer that is not there, if there is a slot for it. -/
theorem addTimer (lists : Lists table pending) (fresh : pending t = false)
    (room : ∃ n < maxTimers, table.mainTimerList n = none) :
    Lists (table.addTimer t) (Function.update pending t true) := by
  rcases table.addTimer_cases t with ⟨n, inside, free, added⟩ | ⟨full, _⟩
  · rw [added]
    exact lists.insert inside free fresh
  · obtain ⟨n, inside, free⟩ := room
    exact absurd free (full n inside)

/-- Behind `del_timer` there is a slot for the timer again. -/
theorem room_delTimer {table : TimerTable τ}
    (room : ∃ n < maxTimers, table.mainTimerList n = none ∨ table.mainTimerList n = some t) :
    ∃ n < maxTimers, (table.delTimer t).mainTimerList n = none := by
  obtain ⟨k, below', free | held⟩ := room
  · rcases table.delTimer_cases t with ⟨n, inside, held, deleted⟩ | ⟨_, deleted⟩
    · rw [deleted]
      exact ⟨n, inside, TimerTable.setSlot_same none⟩
    · rw [deleted]
      exact ⟨k, below', free⟩
  · rcases table.delTimer_cases t with ⟨n, inside, _, deleted⟩ | ⟨absent, _⟩
    · rw [deleted]
      exact ⟨n, inside, TimerTable.setSlot_same none⟩
    · exact absurd held (absent k below')

/-- `mod_timer` leaves the timer pending, if there is a slot for it. -/
theorem modTimer (lists : Lists table pending) (ex : Int32)
    (room : ∃ n < maxTimers, table.mainTimerList n = none ∨ table.mainTimerList n = some t) :
    Lists (table.modTimer t ex) (Function.update pending t true) := by
  have deleted : Lists ((table.delTimer t).setExpires t ex) (Function.update pending t false) :=
    (lists.delTimer t).congr rfl
  have added := deleted.addTimer (t := t) (Function.update_self t false pending)
    (room_delTimer room)
  rwa [Function.update_idem] at added

end Lists

/-! ## One step -/

/-- A step finds a free slot for the timer it adds. -/
def HasRoom (world : World τ) : TimerEvent τ → Prop
  | .operate (.addTimer _) => ∃ n < maxTimers, world.table.mainTimerList n = none
  | .operate (.modTimer t _) => ∃ n < maxTimers,
      world.table.mainTimerList n = none ∨ world.table.mainTimerList n = some t
  | _ => True

section Steps

variable [DecidableEq τ] {world next : World τ} {event : TimerEvent τ}

/-- What a step can do. -/
theorem step_cases (step : world.step event = some next) :
    (∃ call, event = .operate call ∧ (∀ n, world.phase ≠ .scanning n) ∧ world.Proper call ∧
      next = { world with
        table := world.table.after call, pending := askedFor world.pending call }) ∨
    (event = .enter ∧ world.phase = .idle ∧ next = { world with phase := .scanning 0 }) ∨
    (∃ n < maxTimers, event = .skip ∧ world.phase = .scanning n ∧ world.table.due n = none ∧
      next = { world with phase := .scanning (n + 1) }) ∨
    (∃ n < maxTimers, ∃ t, event = .call t ∧ world.phase = .scanning n ∧
      world.table.due n = some t ∧
      next = {
        table := world.table.take n t, phase := .calling n,
        pending := Function.update world.pending t false }) ∨
    (∃ n, event = .returned ∧ world.phase = .calling n ∧
      next = { world with phase := .scanning (n + 1) }) ∨
    (event = .leave ∧ world.phase = .scanning maxTimers ∧
      next = { world with phase := .idle }) := by
  cases event with
  | operate call =>
      left
      refine ⟨call, rfl, ?_⟩
      cases phase : world.phase with
      | scanning n => simp [World.step, phase] at step
      | idle =>
          simp only [World.step, phase, Option.ite_none_right_eq_some, Option.some.injEq] at step
          exact ⟨fun n => by simp, step.1, step.2.symm⟩
      | calling n =>
          simp only [World.step, phase, Option.ite_none_right_eq_some, Option.some.injEq] at step
          exact ⟨fun k => by simp, step.1, step.2.symm⟩
  | enter =>
      simp only [World.step, Option.ite_none_right_eq_some, Option.some.injEq] at step
      exact .inr (.inl ⟨rfl, step.1, step.2.symm⟩)
  | skip =>
      cases phase : world.phase with
      | idle => simp [World.step, phase] at step
      | calling n => simp [World.step, phase] at step
      | scanning n =>
          simp only [World.step, phase, Option.ite_none_right_eq_some, Option.some.injEq] at step
          exact .inr (.inr (.inl ⟨n, step.1.1, rfl, rfl, step.1.2, step.2.symm⟩))
  | call t =>
      cases phase : world.phase with
      | idle => simp [World.step, phase] at step
      | calling n => simp [World.step, phase] at step
      | scanning n =>
          simp only [World.step, phase, Option.ite_none_right_eq_some, Option.some.injEq] at step
          exact .inr (.inr (.inr (.inl ⟨n, step.1.1, t, rfl, rfl, step.1.2, step.2.symm⟩)))
  | returned =>
      cases phase : world.phase with
      | idle => simp [World.step, phase] at step
      | scanning n => simp [World.step, phase] at step
      | calling n =>
          simp only [World.step, phase, Option.some.injEq] at step
          exact .inr (.inr (.inr (.inr (.inl ⟨n, rfl, rfl, step.symm⟩))))
  | leave =>
      simp only [World.step, Option.ite_none_right_eq_some, Option.some.injEq] at step
      exact .inr (.inr (.inr (.inr (.inr ⟨rfl, step.1, step.2.symm⟩))))

/-- The table holds what has been asked for, and every pending timer is due. -/
structure World.Sound (world : World τ) : Prop where
  lists : Lists world.table world.pending
  armed : ∀ t, world.pending t = true →
    world.table.function t = true ∧ world.table.expires t ≠ 0

theorem addTimer_fields (table : TimerTable τ) (t : τ) :
    (table.addTimer t).function = table.function ∧
      (table.addTimer t).expires = table.expires := by
  rcases table.addTimer_cases t with ⟨n, _, _, added⟩ | ⟨_, added⟩ <;> simp [added]

theorem delTimer_fields (table : TimerTable τ) (t : τ) :
    (table.delTimer t).function = table.function ∧
      (table.delTimer t).expires = table.expires := by
  rcases table.delTimer_cases t with ⟨n, _, _, deleted⟩ | ⟨_, deleted⟩ <;> simp [deleted]

theorem modTimer_fields (table : TimerTable τ) (t : τ) (ex : Int32) :
    (table.modTimer t ex).function = table.function ∧
      (table.modTimer t ex).expires = Function.update table.expires t ex := by
  unfold TimerTable.modTimer
  rw [(addTimer_fields _ t).1, (addTimer_fields _ t).2, TimerTable.setExpires_function,
    (delTimer_fields table t).1]
  refine ⟨rfl, ?_⟩
  show Function.update (table.delTimer t).expires t ex = _
  rw [(delTimer_fields table t).2]

/-- A proper call keeps the table sound where it finds room. -/
theorem World.Sound.operate (sound : world.Sound) {call : TimerCall τ} (proper : world.Proper call)
    (room : HasRoom world (.operate call)) :
    World.Sound { world with
      table := world.table.after call, pending := askedFor world.pending call } := by
  obtain ⟨lists, armed⟩ := sound
  cases call with
  | assign t function expires =>
      refine ⟨lists.congr rfl, fun other pends => ?_⟩
      by_cases same : other = t
      · subst same
        simpa [TimerTable.after, TimerTable.setExpires] using proper pends
      · simpa [TimerTable.after, TimerTable.setExpires, same] using armed other pends
  | addTimer t =>
      obtain ⟨fresh, function, expires⟩ := proper
      refine ⟨lists.addTimer fresh room, fun other pends => ?_⟩
      show (world.table.addTimer t).function other = true ∧
        (world.table.addTimer t).expires other ≠ 0
      rw [(addTimer_fields _ t).1, (addTimer_fields _ t).2]
      by_cases same : other = t
      · subst same
        exact ⟨function, expires⟩
      · exact armed other (by simpa [askedFor, same] using pends)
  | delTimer t =>
      refine ⟨lists.delTimer t, fun other pends => ?_⟩
      show (world.table.delTimer t).function other = true ∧
        (world.table.delTimer t).expires other ≠ 0
      rw [(delTimer_fields _ t).1, (delTimer_fields _ t).2]
      by_cases same : other = t
      · subst same
        simp [askedFor] at pends
      · exact armed other (by simpa [askedFor, same] using pends)
  | modTimer t ex =>
      refine ⟨lists.modTimer ex room, fun other pends => ?_⟩
      show (world.table.modTimer t ex).function other = true ∧
        (world.table.modTimer t ex).expires other ≠ 0
      rw [(modTimer_fields _ t ex).1, (modTimer_fields _ t ex).2]
      by_cases same : other = t
      · subst same
        simpa [World.Proper] using proper
      · simpa [same] using armed other (by simpa [askedFor, same] using pends)

/-- Every step keeps the table sound where it finds room. -/
theorem World.Sound.step (sound : world.Sound) (room : HasRoom world event)
    (step : world.step event = some next) : next.Sound := by
  rcases step_cases step with ⟨call, rfl, _, proper, rfl⟩ | ⟨_, _, rfl⟩ | ⟨n, _, _, _, _, rfl⟩ |
    ⟨n, inside, t, _, _, due, rfl⟩ | ⟨n, _, _, rfl⟩ | ⟨_, _, rfl⟩
  · exact sound.operate proper room
  · exact ⟨sound.lists, sound.armed⟩
  · exact ⟨sound.lists, sound.armed⟩
  · have lists : Lists (world.table.setExpires t 0) world.pending := sound.lists.congr rfl
    have held : (world.table.setExpires t 0).mainTimerList n = some t := by
      rw [TimerTable.setExpires_mainTimerList]
      exact TimerTable.due_eq_some due
    refine ⟨lists.remove inside held, fun other pends => ?_⟩
    by_cases same : other = t
    · subst same
      simp at pends
    · simpa [TimerTable.take, TimerTable.setSlot, TimerTable.setExpires, same] using
        sound.armed other (by simpa [same] using pends)
  · exact ⟨sound.lists, sound.armed⟩
  · exact ⟨sound.lists, sound.armed⟩

/-! ## A timer keeps its slot -/

/-- The event takes a timer off the table without calling it. -/
def Deletes (t : τ) (event : TimerEvent τ) : Prop :=
  event = .operate (.delTimer t) ∨ ∃ ex, event = .operate (.modTimer t ex)

/-- The event puts a timer on the table. -/
def Adds (t : τ) (event : TimerEvent τ) : Prop :=
  event = .operate (.addTimer t) ∨ ∃ ex, event = .operate (.modTimer t ex)

theorem addTimer_keeps {table : TimerTable τ} {t other : τ} {k : Nat}
    (held : table.mainTimerList k = some t) : (table.addTimer other).mainTimerList k = some t := by
  rcases table.addTimer_cases other with ⟨n, _, free, added⟩ | ⟨_, added⟩
  · have different : k ≠ n := by
      rintro rfl
      rw [free] at held
      cases held
    rw [added, TimerTable.setSlot_other different, held]
  · rw [added, held]

theorem delTimer_keeps {table : TimerTable τ} {t other : τ} {k : Nat} (apart : other ≠ t)
    (held : table.mainTimerList k = some t) : (table.delTimer other).mainTimerList k = some t := by
  rcases table.delTimer_cases other with ⟨n, _, gone, deleted⟩ | ⟨_, deleted⟩
  · have different : k ≠ n := by
      rintro rfl
      rw [held] at gone
      cases gone
      exact apart rfl
    rw [deleted, TimerTable.setSlot_other different, held]
  · rw [deleted, held]

/-- Only its call and its deletion take a timer off its slot. -/
theorem step_keeps {t : τ} {k : Nat} (held : world.table.mainTimerList k = some t)
    (notCalled : event ≠ .call t) (notDeleted : ¬Deletes t event)
    (step : world.step event = some next) : next.table.mainTimerList k = some t := by
  rcases step_cases step with ⟨call, rfl, _, _, rfl⟩ | ⟨_, _, rfl⟩ | ⟨n, _, _, _, _, rfl⟩ |
    ⟨n, _, other, rfl, _, due, rfl⟩ | ⟨n, _, _, rfl⟩ | ⟨_, _, rfl⟩
  · cases call with
    | assign other function expires => exact held
    | addTimer other => exact addTimer_keeps held
    | delTimer other =>
        exact delTimer_keeps (fun same => notDeleted (.inl (by rw [same]))) held
    | modTimer other ex =>
        have apart : other ≠ t := fun same => notDeleted (.inr ⟨ex, by rw [same]⟩)
        have kept : ((world.table.delTimer other).setExpires other ex).mainTimerList k = some t :=
          delTimer_keeps apart held
        exact addTimer_keeps kept
  · exact held
  · exact held
  · have different : k ≠ n := by
      rintro rfl
      rw [TimerTable.due_eq_some due] at held
      cases held
      exact notCalled rfl
    show ((world.table.setExpires other 0).setSlot n none).mainTimerList k = some t
    rw [TimerTable.setSlot_other different]
    exact held
  · exact held
  · exact held

/-- The slot is still to be examined in this pass. -/
def Phase.Ahead (k : Nat) : Phase → Prop
  | .idle => False
  | .scanning n => n ≤ k
  | .calling n => n < k

/-- A pass does not go by the slot of a timer that is due without calling it. -/
theorem step_ahead {t : τ} {k : Nat} (inside : k < maxTimers) (due : world.table.due k = some t)
    (ahead : world.phase.Ahead k) (notCalled : event ≠ .call t)
    (step : world.step event = some next) : next.phase.Ahead k ∧ event ≠ .leave := by
  rcases step_cases step with ⟨call, rfl, _, _, rfl⟩ | ⟨rfl, phase, rfl⟩ |
    ⟨n, _, rfl, phase, free, rfl⟩ | ⟨n, _, other, rfl, phase, due', rfl⟩ | ⟨n, rfl, phase, rfl⟩ |
    ⟨rfl, phase, rfl⟩
  · exact ⟨ahead, by simp⟩
  · rw [phase] at ahead
    exact ahead.elim
  · rw [phase] at ahead
    have different : n ≠ k := by
      rintro rfl
      rw [free] at due
      cases due
    exact ⟨Nat.lt_of_le_of_ne ahead different, by simp⟩
  · rw [phase] at ahead
    have different : n ≠ k := by
      rintro rfl
      rw [due'] at due
      cases due
      exact notCalled rfl
    exact ⟨Nat.lt_of_le_of_ne ahead different, by simp⟩
  · rw [phase] at ahead
    exact ⟨ahead, by simp⟩
  · rw [phase] at ahead
    exact absurd inside (Nat.not_lt.mpr ahead)

/-- A timer that is not pending stays so until it is added. -/
theorem step_notPending {t : τ} (fresh : world.pending t = false) (notAdded : ¬Adds t event)
    (step : world.step event = some next) : next.pending t = false := by
  rcases step_cases step with ⟨call, rfl, _, _, rfl⟩ | ⟨_, _, rfl⟩ | ⟨n, _, _, _, _, rfl⟩ |
    ⟨n, _, other, _, _, _, rfl⟩ | ⟨n, _, _, rfl⟩ | ⟨_, _, rfl⟩
  · cases call with
    | assign other function expires => exact fresh
    | addTimer other =>
        have apart : t ≠ other := fun same => notAdded (.inl (by rw [same]))
        simpa [askedFor, apart] using fresh
    | delTimer other =>
        show Function.update world.pending other false t = false
        by_cases same : t = other <;> simp [same, fresh]
    | modTimer other ex =>
        have apart : t ≠ other := fun same => notAdded (.inr ⟨ex, by rw [same]⟩)
        simpa [askedFor, apart] using fresh
  · exact fresh
  · exact fresh
  · show Function.update world.pending other false t = false
    by_cases same : t = other <;> simp [same, fresh]
  · exact fresh
  · exact fresh

end Steps

/-! ## Runs -/

section Runs

variable [DecidableEq τ] {world last : World τ} {labels : List (TimerEvent τ)}

/-- The table is sound in every run that finds room. -/
def soundInvariant (τ : Type) [DecidableEq τ] :
    ((timerSystem τ).restrict HasRoom).Invariant where
  Inv := World.Sound
  initial := by
    rintro world ⟨empty, _, none⟩
    refine ⟨⟨?_, ?_⟩, ?_⟩
    · intro i j t _ _ held
      rw [empty] at held
      cases held
    · simp [empty, none]
    · simp [none]
  preserved := fun sound transition => sound.step transition.1 transition.2

/-- A path along which a pending timer is neither called nor deleted leaves it in its slot. -/
theorem path_keeps {t : τ} {k : Nat}
    (path : ((timerSystem τ).restrict HasRoom).Path world labels last)
    (held : world.table.mainTimerList k = some t) (notCalled : .call t ∉ labels)
    (notDeleted : ∀ event ∈ labels, ¬Deletes t event) : last.table.mainTimerList k = some t := by
  induction labels generalizing world with
  | nil =>
      rw [LabelledSystem.path_nil_iff.mp path]
      exact held
  | cons event labels ih =>
      obtain ⟨middle, transition, rest⟩ := LabelledSystem.path_cons_iff.mp path
      rw [List.mem_cons, not_or] at notCalled
      apply ih rest
      · exact step_keeps held (Ne.symm notCalled.1) (notDeleted _ List.mem_cons_self) transition.2
      · exact notCalled.2
      · exact fun event member => notDeleted event (List.mem_cons_of_mem _ member)

/-- The pass does not end before the slot of such a timer. -/
theorem path_ahead {t : τ} {k : Nat} (inside : k < maxTimers)
    (path : ((timerSystem τ).restrict HasRoom).Path world labels last) (sound : world.Sound)
    (held : world.table.mainTimerList k = some t) (ahead : world.phase.Ahead k)
    (notCalled : .call t ∉ labels) (notDeleted : ∀ event ∈ labels, ¬Deletes t event) :
    .leave ∉ labels := by
  induction labels generalizing world with
  | nil => exact List.not_mem_nil
  | cons event labels ih =>
      obtain ⟨middle, transition, rest⟩ := LabelledSystem.path_cons_iff.mp path
      rw [List.mem_cons, not_or] at notCalled
      have armed := sound.armed t ((sound.lists.listed t).mpr ⟨k, inside, held⟩)
      have due := TimerTable.due_of_armed held armed.1 armed.2
      have kept := step_keeps held (Ne.symm notCalled.1) (notDeleted _ List.mem_cons_self)
        transition.2
      obtain ⟨ahead', notLeft⟩ := step_ahead inside due ahead (Ne.symm notCalled.1) transition.2
      rw [List.mem_cons, not_or]
      exact ⟨Ne.symm notLeft, ih rest (sound.step transition.1 transition.2) kept ahead' notCalled.2
        fun event member => notDeleted event (List.mem_cons_of_mem _ member)⟩

/-- A timer that is not pending is not called before it is added. -/
theorem path_notPending {t : τ} (path : ((timerSystem τ).restrict HasRoom).Path world labels last)
    (sound : world.Sound) (fresh : world.pending t = false)
    (notAdded : ∀ event ∈ labels, ¬Adds t event) : .call t ∉ labels := by
  induction labels generalizing world with
  | nil => exact List.not_mem_nil
  | cons event labels ih =>
      obtain ⟨middle, transition, rest⟩ := LabelledSystem.path_cons_iff.mp path
      rw [List.mem_cons, not_or]
      constructor
      · rintro rfl
        rcases step_cases transition.2 with ⟨_, same, _⟩ | ⟨same, _⟩ | ⟨_, _, same, _⟩ |
          ⟨n, inside, other, same, _, due, _⟩ | ⟨_, same, _⟩ | ⟨same, _⟩
        all_goals cases same
        have pends := (sound.lists.listed t).mpr ⟨n, inside, TimerTable.due_eq_some due⟩
        rw [fresh] at pends
        cases pends
      · exact ih rest (sound.step transition.1 transition.2)
          (step_notPending fresh (notAdded _ List.mem_cons_self) transition.2)
          fun event member => notAdded event (List.mem_cons_of_mem _ member)

/-- The timer is called once, and again only if it is added again. -/
def CalledOnce (t : τ) (labels : List (TimerEvent τ)) : Prop :=
  ∃ first rest, labels = first ++ .call t :: rest ∧ .call t ∉ first ∧
    ∀ between later, rest = between ++ .call t :: later → ∃ event ∈ between, Adds t event

/-- No timer is deleted before it is called. -/
def NotDeleted (t : τ) (labels : List (TimerEvent τ)) : Prop :=
  ∀ first event rest, labels = first ++ event :: rest → Deletes t event → .call t ∈ first

/-- Timers are neither lost nor repeated: a timer stands in one slot at most, only a pending one is
called, and a pending one that is not deleted is called once by the end of the next pass. -/
structure World.Kept (allowed : World τ → TimerEvent τ → Prop) (world : World τ) : Prop where
  single : ∀ t i j, i < maxTimers → j < maxTimers → world.table.mainTimerList i = some t →
    world.table.mainTimerList j = some t → i = j
  called_pending : ∀ t next, world.step (.call t) = some next → world.pending t = true
  pending_called : ∀ t before pass last, world.pending t = true →
    ((timerSystem τ).restrict allowed).Path world (before ++ .enter :: (pass ++ [.leave])) last →
    NotDeleted t (before ++ .enter :: (pass ++ [.leave])) →
      CalledOnce t (before ++ .enter :: (pass ++ [.leave]))

theorem step_call {t : τ} {next : World τ} (step : world.step (.call t) = some next) :
    (∃ n < maxTimers, world.table.mainTimerList n = some t) ∧ next.pending t = false := by
  rcases step_cases step with ⟨_, same, _⟩ | ⟨same, _⟩ | ⟨_, _, same, _⟩ |
    ⟨n, inside, other, same, _, due, rfl⟩ | ⟨_, same, _⟩ | ⟨same, _⟩
  all_goals cases same
  exact ⟨⟨n, inside, TimerTable.due_eq_some due⟩, Function.update_self _ _ _⟩

theorem step_enter {next : World τ} (step : world.step .enter = some next) :
    next = { world with phase := .scanning 0 } := by
  rcases step_cases step with ⟨_, same, _⟩ | ⟨_, _, entered⟩ | ⟨_, _, same, _⟩ |
    ⟨_, _, _, same, _⟩ | ⟨_, same, _⟩ | ⟨same, _⟩
  all_goals try cases same
  exact entered

/-- A pending timer that is not deleted is called by the end of a pass. -/
theorem called_of_pass {t : τ} {before pass : List (TimerEvent τ)} (sound : world.Sound)
    (pends : world.pending t = true)
    (path : ((timerSystem τ).restrict HasRoom).Path world
      (before ++ .enter :: (pass ++ [.leave])) last)
    (notDeleted : NotDeleted t (before ++ .enter :: (pass ++ [.leave]))) :
    .call t ∈ before ++ .enter :: (pass ++ [.leave]) := by
  by_contra notCalled
  have untouched : ∀ event ∈ before ++ .enter :: (pass ++ [.leave]), ¬Deletes t event := by
    intro event member deletes
    obtain ⟨first, rest, split, _⟩ := List.eq_append_cons_of_mem member
    apply notCalled
    rw [split]
    exact List.mem_append_left _ (notDeleted first event rest split deletes)
  obtain ⟨k, inside, held⟩ := (sound.lists.listed t).mp pends
  obtain ⟨middle, start, rest⟩ := path.split
  obtain ⟨entered, enters, scan⟩ := LabelledSystem.path_cons_iff.mp rest
  have sound' : World.Sound middle := (soundInvariant τ).of_path sound start
  have held' : (World.table middle).mainTimerList k = some t :=
    path_keeps start held (fun member => notCalled (List.mem_append_left _ member))
      fun event member => untouched event (List.mem_append_left _ member)
  have left := path_ahead inside scan (sound'.step enters.1 enters.2)
    (by rw [step_enter enters.2]; exact held') (by rw [step_enter enters.2]; exact Nat.zero_le k)
    (fun member => notCalled (List.mem_append_right _ (List.mem_cons_of_mem _ member)))
    fun event member => untouched event (List.mem_append_right _ (List.mem_cons_of_mem _ member))
  exact left (by simp)

/-- Behind its call a timer is called again only if it is added again. -/
theorem added_between {t : τ} {first rest between later : List (TimerEvent τ)}
    (sound : world.Sound)
    (path : ((timerSystem τ).restrict HasRoom).Path world (first ++ .call t :: rest) last)
    (again : rest = between ++ .call t :: later) : ∃ event ∈ between, Adds t event := by
  by_contra none
  obtain ⟨middle, start, behind⟩ := path.split
  obtain ⟨called, calls, tail⟩ := LabelledSystem.path_cons_iff.mp behind
  have sound' : World.Sound middle := (soundInvariant τ).of_path sound start
  have split : rest = (between ++ [.call t]) ++ later := by simp [again]
  rw [split] at tail
  obtain ⟨_, untilAgain, _⟩ := tail.split
  have absent := path_notPending untilAgain (sound'.step calls.1 calls.2) (step_call calls.2).2
    (by
      intro event member adds
      rcases List.mem_append.mp member with inside | last
      · exact none ⟨event, inside, adds⟩
      · rw [List.mem_singleton.mp last] at adds
        rcases adds with same | ⟨_, same⟩ <;> cases same)
  exact absent (by simp)

/-- Timers are neither lost nor repeated in every run that finds a free slot for each timer it
adds. -/
theorem timers_kept {labels : List (TimerEvent τ)} {world : World τ}
    (runs : ((timerSystem τ).restrict HasRoom).Runs labels world) : world.Kept HasRoom := by
  have sound : world.Sound := (soundInvariant τ).of_runs runs
  refine ⟨fun t i j lower upper => sound.lists.single lower upper, ?_, ?_⟩
  · intro t next step
    exact (sound.lists.listed t).mpr (step_call step).1
  · intro t before pass last pends path notDeleted
    have called := called_of_pass sound pends path notDeleted
    obtain ⟨first, rest, split, fresh⟩ := List.eq_append_cons_of_mem called
    refine ⟨first, rest, split, fresh, fun between later again => ?_⟩
    rw [split] at path
    exact added_between sound path again

/-- Steps that can be taken one after the other are a path. -/
theorem path_of_steps (steps : labels.foldlM World.step world = some last) :
    (timerSystem τ).Path world labels last := by
  induction labels generalizing world with
  | nil =>
      simp only [List.foldlM_nil, Option.pure_def, Option.some.injEq] at steps
      rw [steps]
      exact .refl
  | cons event labels ih =>
      rw [List.foldlM_cons, Option.bind_eq_bind, Option.bind_eq_some_iff] at steps
      obtain ⟨middle, first, rest⟩ := steps
      exact .step first (ih rest)

/-- A path that finds room begins with a step that does. -/
theorem roomyPath_cons {middle : World τ} {kind : World τ → Prop} {event : TimerEvent τ}
    (room : HasRoom world event) (step : world.step event = some middle)
    (rest : ∃ last, ((timerSystem τ).restrict HasRoom).Path middle labels last ∧ kind last) :
    ∃ last, ((timerSystem τ).restrict HasRoom).Path world (event :: labels) last ∧ kind last := by
  obtain ⟨last, path, held⟩ := rest
  exact ⟨last, .step ⟨room, step⟩ path, held⟩

end Runs

/-- A world whose timers are all set up. -/
def readyWorld : World Nat :=
  { table := { mainTimerList := fun _ => none, function := fun _ => true, expires := fun _ => 1 }
    phase := .idle
    pending := fun _ => false }

theorem fresh_readyWorld : readyWorld.Fresh := ⟨rfl, rfl, rfl⟩

/-- Three timers are added; in the pass that follows the function of the first one deletes the
second and asks to be called again. -/
def threeTimers : List (TimerEvent Nat) :=
  [.operate (.addTimer 7), .operate (.addTimer 3), .operate (.addTimer 5), .enter, .call 7,
    .operate (.delTimer 3), .operate (.modTimer 7 2)]

theorem threeTimers_path : ∃ world : World Nat,
    ((timerSystem Nat).restrict HasRoom).Path readyWorld threeTimers world ∧
      world.phase = .calling 0 := by
  refine roomyPath_cons ⟨0, by decide, rfl⟩ rfl (roomyPath_cons ⟨1, by decide, rfl⟩ rfl ?_)
  refine roomyPath_cons ⟨2, by decide, rfl⟩ rfl (roomyPath_cons trivial rfl ?_)
  refine roomyPath_cons trivial rfl (roomyPath_cons trivial rfl ?_)
  exact roomyPath_cons ⟨0, by decide, .inl rfl⟩ rfl ⟨_, .refl, rfl⟩

/-- In the middle of that pass nothing is lost. -/
theorem timers_kept_threeTimers : ∃ world : World Nat, world.phase = .calling 0 ∧
    World.Kept HasRoom world := by
  obtain ⟨world, path, calling⟩ := threeTimers_path
  have ready : ((timerSystem Nat).restrict HasRoom).Runs [] readyWorld :=
    .initial fresh_readyWorld
  exact ⟨world, calling, timers_kept (ready.extend path)⟩

/-- Timers from 0 on, each added. -/
def addAll (count : Nat) : List (TimerEvent Nat) :=
  (List.range count).map fun t => .operate (.addTimer t)

/-- What a pass does that finds the timers from 0 on, one in each slot. -/
def callAll (count : Nat) : List (TimerEvent Nat) :=
  (List.range count).flatMap fun t => [.call t, .returned]

/-- With a timer more than there are slots, the last one is never called. -/
theorem not_timers_kept : ¬∀ labels world, (timerSystem Nat).Runs labels world →
    World.Kept (fun _ _ => True) world := by
  intro kept
  have checked : ((addAll 21).foldlM World.step readyWorld).any (fun full => full.pending 20 &&
      ((.enter :: (callAll 20 ++ [.leave])).foldlM World.step full).isSome) = true := by
    decide +kernel
  obtain ⟨full, adds, pends⟩ := (Option.any_eq_true _ _).mp checked
  rw [Bool.and_eq_true, Option.isSome_iff_exists] at pends
  obtain ⟨pends, last, scans⟩ := pends
  have runs : (timerSystem Nat).Runs ([] ++ addAll 21) full :=
    (LabelledSystem.Runs.initial fresh_readyWorld).extend (path_of_steps adds)
  have operates : ∀ call, .operate call ∉ TimerEvent.enter :: (callAll 20 ++ [.leave]) := by
    simp [callAll]
  have path : ((timerSystem Nat).restrict fun _ _ => True).Path full
      ([] ++ .enter :: (callAll 20 ++ [.leave])) last :=
    (path_of_steps scans).restrict_true
  have notDeleted : NotDeleted 20 ([] ++ .enter :: (callAll 20 ++ [.leave])) := by
    intro first event rest split deletes
    have member : event ∈ [] ++ TimerEvent.enter :: (callAll 20 ++ [.leave]) := by
      rw [split]
      simp
    rcases deletes with rfl | ⟨ex, rfl⟩
    · exact absurd member (operates _)
    · exact absurd member (operates _)
  have called := (kept _ full runs).pending_called 20 [] (callAll 20) last pends path notDeleted
  obtain ⟨first, rest, split, _⟩ := called
  have member : .call 20 ∈ TimerEvent.enter :: (callAll 20 ++ [.leave]) := by
    rw [List.nil_append] at split
    rw [split]
    simp
  simp [callAll] at member

end Cromwell.Usb
