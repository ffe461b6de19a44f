import Mathlib.Data.List.DropRight
import Mathlib.Tactic.Common

/-!
# Swapped pairs and trimmed ends

A list in which the two items of each pair have changed places has the item of the partner at
each place. A list that is trimmed of an item at its end is as long as what is left of it, and
only one list of a given length is trimmed to that.
-/

namespace Cromwell.Std

universe u

variable {α : Type u}

/-- The items of each pair change places. -/
def swapPairs : List α → List α
  | [] => []
  | [last] => [last]
  | first :: second :: rest => second :: first :: swapPairs rest

/-- The other place of a pair. -/
def partner (k : Nat) : Nat := if k % 2 = 0 then k + 1 else k - 1

section Swap

variable {k : Nat}

theorem partner_partner (k : Nat) : partner (partner k) = k := by
  unfold partner
  split_ifs <;> omega

/-- The partner belongs to the same pair. -/
theorem partner_div (k : Nat) : partner k / 2 = k / 2 := by
  unfold partner
  split <;> omega

/-- No pair is cut by an even bound. -/
theorem partner_lt {len : Nat} (even : 2 ∣ len) (bound : k < len) : partner k < len := by
  have pair := partner_div k
  omega

theorem partner_add_two (k : Nat) : partner (k + 2) = partner k + 2 := by
  unfold partner
  split_ifs <;> omega

theorem swapPairs_perm (list : List α) : (swapPairs list).Perm list := by
  induction list using swapPairs.induct with
  | case1 => rfl
  | case2 last => rfl
  | case3 first second rest ih =>
      exact (List.Perm.swap first second _).trans ((ih.cons second).cons first)

@[simp] theorem length_swapPairs (list : List α) : (swapPairs list).length = list.length :=
  (swapPairs_perm list).length_eq

theorem getElem?_swapPairs {list : List α} (even : 2 ∣ list.length) (k : Nat) :
    (swapPairs list)[k]? = list[partner k]? := by
  induction list using swapPairs.induct generalizing k with
  | case1 => simp [swapPairs]
  | case2 last =>
      rw [List.length_singleton] at even
      omega
  | case3 first second rest ih =>
      rw [swapPairs]
      rcases k with _ | _ | k
      · rfl
      · rfl
      · rw [partner_add_two]
        exact ih (by simpa using even) k

end Swap

section Trim

variable [DecidableEq α] {padding : α} {list other : List α}

/-- What has been trimmed off is padding. -/
theorem rdropWhile_append_replicate (padding : α) (list : List α) :
    list.rdropWhile (· = padding) ++
      List.replicate (list.length - (list.rdropWhile (· = padding)).length) padding = list := by
  have split := @List.rdropWhile_append_rtakeWhile _ (fun item => decide (item = padding)) list
  have lengths := congrArg List.length split
  rw [List.length_append] at lengths
  have cut : list.rtakeWhile (· = padding) =
      List.replicate (list.length - (list.rdropWhile (· = padding)).length) padding := by
    rw [List.eq_replicate_iff]
    refine ⟨by omega, fun item member => ?_⟩
    simpa using List.mem_rtakeWhile_imp member
  rw [← cut]
  exact split

/-- Lists of the same length that are trimmed to the same list are the same. -/
theorem eq_of_rdropWhile_eq (lengths : list.length = other.length)
    (trimmed : list.rdropWhile (· = padding) = other.rdropWhile (· = padding)) :
    list = other := by
  rw [← rdropWhile_append_replicate padding list, ← rdropWhile_append_replicate padding other,
    trimmed, lengths]

theorem take_length_rdropWhile (padding : α) (list : List α) :
    list.take (list.rdropWhile (· = padding)).length = list.rdropWhile (· = padding) :=
  (List.prefix_iff_eq_take.mp (List.rdropWhile_prefix _ list)).symm

end Trim

end Cromwell.Std
