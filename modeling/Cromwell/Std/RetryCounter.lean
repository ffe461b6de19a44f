import Mathlib.Data.List.Basic
import Mathlib.Order.Monotone.Basic
import Mathlib.Tactic.Linarith

/-!
# Retry counters

A loop tries a place until its work is done there, and moves on. Tries are counted
for a group of places at a time: a try in another group than the last one sets the
counter to its limit, and a try in the same group counts it down. At zero nothing
more is tried. Where the loop never moves back, and the groups stand in the order of
their places, no group is tried more often than the limit says.
-/

namespace Cromwell.Std

universe u v

/-- The first place tried in the current group, and the tries left in it. -/
structure RetryCounter (α : Type u) where
  last : α
  left : Int

namespace RetryCounter

variable {α : Type u} {γ : Type v}

/-- Tries are left, and no more than the limit. -/
structure Live (limit : Nat) (counter : RetryCounter α) : Prop where
  positive : 0 < counter.left
  bounded : counter.left ≤ limit

section Count

variable [DecidableEq γ] (group : α → γ) (limit : Nat)

/-- Counts a try. -/
def count (counter : RetryCounter α) (place : α) : RetryCounter α :=
  if group counter.last = group place then { counter with left := counter.left - 1 }
  else { last := place, left := limit }

/-- A bound on the tries to come before the loop moves on or gives up. -/
def tries (counter : RetryCounter α) (place : α) : Nat :=
  if group counter.last = group place then counter.left.toNat else limit + 1

variable {group} {limit} {counter : RetryCounter α} {place : α}

theorem count_last (counter : RetryCounter α) (place : α) :
    group (counter.count group limit place).last = group place := by
  unfold count
  split
  · next same => exact same
  · rfl

theorem Live.count (live : counter.Live limit)
    (tried : (counter.count group limit place).left ≠ 0) :
    (counter.count group limit place).Live limit := by
  obtain ⟨positive, bounded⟩ := live
  unfold RetryCounter.count at tried ⊢
  split at tried
  · next same =>
    rw [if_pos same]
    exact ⟨by dsimp only at tried ⊢; omega, by dsimp only; omega⟩
  · next other =>
    rw [if_neg other]
    exact ⟨by dsimp only at tried ⊢; omega, by dsimp only; omega⟩

theorem Live.tries_le (live : counter.Live limit) (place : α) :
    counter.tries group limit place ≤ limit + 1 := by
  have bounded := live.bounded
  unfold tries
  split
  · omega
  · exact Nat.le_refl _

/-- Every try uses up one of the tries to come. -/
theorem Live.tries_count (live : counter.Live limit) :
    (counter.count group limit place).tries group limit place <
      counter.tries group limit place := by
  have positive := live.positive
  have same : (counter.count group limit place).tries group limit place =
      (counter.count group limit place).left.toNat := if_pos (count_last counter place)
  rw [same]
  unfold tries RetryCounter.count
  split
  · dsimp only
    omega
  · dsimp only
    omega

end Count

/-! ## How often a group is tried -/

variable [LinearOrder α] [LinearOrder γ] (group : α → γ) (limit : Nat)

/-- The counter, the place of the loop, and the places tried so far. -/
structure Counts (counter : RetryCounter α) (place : α) (tried : List α) : Prop where
  live : counter.Live limit
  current : group counter.last = group place →
    (tried.countP fun a => group a = group place) + counter.left ≤ limit + 1
  few : ∀ g, (tried.countP fun a => group a = g) ≤ limit
  latest : ∀ a ∈ tried, group a ≤ group counter.last ∧ group counter.last ≤ group place
  passed : ∀ a ∈ tried, a ≤ place
  ordered : tried.Pairwise (· ≤ ·)

variable {group} {limit} {counter : RetryCounter α} {place : α} {tried : List α}

theorem Counts.start (live : counter.Live limit) (place : α) :
    Counts group limit counter place [] where
  live := live
  current _ := by
    have bounded := live.bounded
    simp only [List.countP_nil]
    omega
  few _ := Nat.zero_le limit
  latest _ member := absurd member List.not_mem_nil
  passed _ member := absurd member List.not_mem_nil
  ordered := List.Pairwise.nil

/-- In a group other than the last one nothing has been tried. -/
theorem Counts.fresh (counts : Counts group limit counter place tried)
    (other : group counter.last ≠ group place) :
    (tried.countP fun a => group a = group place) = 0 := by
  rw [List.countP_eq_zero]
  intro a member same
  obtain ⟨first, second⟩ := counts.latest a member
  rw [decide_eq_true_eq] at same
  exact other (le_antisymm second (same ▸ first))

/-- What has been tried in the group of a try and what is left stay within the limit. -/
theorem Counts.total (counts : Counts group limit counter place tried) :
    ((tried ++ [place]).countP fun a => group a = group place) +
      (counter.count group limit place).left ≤ limit + 1 := by
  have here : (tried ++ [place]).countP (fun a => group a = group place) =
      tried.countP (fun a => group a = group place) + 1 := by
    simp
  rw [here]
  by_cases same : group counter.last = group place
  · have current := counts.current same
    rw [RetryCounter.count, if_pos same]
    push_cast
    omega
  · have fresh := counts.fresh same
    rw [RetryCounter.count, if_neg same, fresh]
    push_cast
    omega

/-- One try. -/
theorem Counts.retry (counts : Counts group limit counter place tried)
    (more : (counter.count group limit place).left ≠ 0) :
    Counts group limit (counter.count group limit place) place (tried ++ [place]) := by
  have live := counts.live.count more
  have reached : group (counter.count group limit place).last = group place :=
    count_last counter place
  have total := counts.total
  exact {
    live
    current := fun _ => total
    few := by
      intro g
      by_cases ours : group place = g
      · subst ours
        have positive := live.positive
        omega
      · have rest : (tried ++ [place]).countP (fun a => group a = g) =
            tried.countP (fun a => group a = g) := by
          simp [ours]
        rw [rest]
        exact counts.few g
    latest := by
      intro a member
      rw [reached]
      rcases List.mem_append.mp member with earlier | now
      · obtain ⟨first, second⟩ := counts.latest a earlier
        exact ⟨first.trans second, le_refl _⟩
      · rw [List.mem_singleton.mp now]
        exact ⟨le_refl _, le_refl _⟩
    passed := by
      intro a member
      rcases List.mem_append.mp member with earlier | now
      · exact counts.passed a earlier
      · exact le_of_eq (List.mem_singleton.mp now)
    ordered := by
      rw [List.pairwise_append]
      refine ⟨counts.ordered, List.pairwise_singleton _ _, ?_⟩
      intro a member b last
      rw [List.mem_singleton.mp last]
      exact counts.passed a member }

/-- The loop moves on. -/
theorem Counts.advance (counts : Counts group limit counter place tried)
    (monotone : Monotone group) {next : α} (onward : place ≤ next) :
    Counts group limit counter next tried where
  live := counts.live
  current same := by
    rcases List.eq_nil_or_concat tried with nothing | ⟨front, a, whole⟩
    · have bounded := counts.live.bounded
      rw [nothing, List.countP_nil]
      push_cast
      omega
    · have member : a ∈ tried := by rw [whole]; simp
      have between : group place = group next :=
        le_antisymm (monotone onward) (same ▸ (counts.latest a member).2)
      rw [← between]
      exact counts.current (same.trans between.symm)
  few := counts.few
  latest a member := by
    obtain ⟨first, second⟩ := counts.latest a member
    exact ⟨first, second.trans (monotone onward)⟩
  passed a member := (counts.passed a member).trans onward
  ordered := counts.ordered

end RetryCounter

end Cromwell.Std
