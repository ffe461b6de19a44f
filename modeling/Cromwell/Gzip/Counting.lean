import Cromwell.Gzip.HuftBuild
import Cromwell.Std.CanonicalCode

/-!
# The lengths of a set of codes

What `huft_build` works out before it makes tables, in terms of the lengths alone: the
counts, the least and the greatest length, what is left of the code space, and the
values sorted by length.
-/

namespace Cromwell.Gzip

open Cromwell.Std

/-! ## Counts -/

theorem getD_modify_succ (c : List Nat) {length k : Nat} (inside : k < c.length) :
    (c.modify length (· + 1)).getD k 0 = c.getD k 0 + if length = k then 1 else 0 := by
  rw [List.getD_eq_getElem?_getD, List.getD_eq_getElem?_getD, List.getElem?_modify]
  by_cases same : length = k
  · simp [same, List.getElem?_eq_getElem inside]
  · simp [same]

theorem getD_foldl_counts (b : List Nat) (c : List Nat) {k : Nat} (inside : k < c.length) :
    (b.foldl (fun c length => c.modify length (· + 1)) c).getD k 0 = c.getD k 0 + b.count k := by
  induction b generalizing c with
  | nil => rfl
  | cons length b ih =>
      rw [List.foldl_cons, ih _ (by rwa [List.length_modify]), getD_modify_succ c inside,
        List.count_cons]
      by_cases same : length = k
      · subst same
        rw [if_pos rfl, if_pos (beq_self_eq_true length)]
        omega
      · simp [same]

/-- `c[k]` is the number of codes of length `k`. -/
theorem countLengths_eq (b : List Nat) {k : Nat} (bound : k ≤ bmax) :
    (countLengths b).getD k 0 = b.count k := by
  have start : (List.replicate (bmax + 1) 0).getD k 0 = 0 := by
    rw [List.getD_eq_getElem?_getD, List.getElem?_replicate_of_lt (Nat.lt_succ_of_le bound)]
    rfl
  rw [countLengths, getD_foldl_counts b _ (by rw [List.length_replicate]; omega), start,
    Nat.zero_add]

/-- The search for the least length stops at the first that occurs. -/
theorem minLength_spec {c : Nat → Nat} {passes j k : Nat} (start : j ≤ k) (bound : k < j + passes)
    (occurs : c k ≠ 0) :
    j ≤ minLength c passes j ∧ minLength c passes j ≤ k ∧ c (minLength c passes j) ≠ 0 ∧
      ∀ k', j ≤ k' → k' < minLength c passes j → c k' = 0 := by
  induction passes generalizing j with
  | zero => omega
  | succ passes ih =>
      rw [minLength]
      split
      · next found => exact ⟨Nat.le_refl j, start, found, fun k' lower upper => by omega⟩
      · next zero =>
        have absent : c j = 0 := not_not.mp zero
        have later : j ≠ k := by
          rintro rfl
          exact occurs absent
        obtain ⟨lower, upper, found, before⟩ := ih (j := j + 1) (by omega) (by omega)
        refine ⟨by omega, upper, found, fun k' from' below => ?_⟩
        rcases Nat.eq_or_lt_of_le from' with rfl | above
        · exact absent
        · exact before k' above below

theorem maxLength_spec {c : Nat → Nat} {i k : Nat} (positive : 1 ≤ k) (bound : k ≤ i)
    (occurs : c k ≠ 0) :
    k ≤ maxLength c i ∧ maxLength c i ≤ i ∧ c (maxLength c i) ≠ 0 ∧
      ∀ k', maxLength c i < k' → k' ≤ i → c k' = 0 := by
  induction i with
  | zero => omega
  | succ i ih =>
      rw [maxLength]
      split
      · next found => exact ⟨bound, Nat.le_refl _, found, fun k' lower upper => by omega⟩
      · next zero =>
        have absent : c (i + 1) = 0 := not_not.mp zero
        have earlier : k ≠ i + 1 := by
          rintro rfl
          exact occurs absent
        obtain ⟨lower, upper, found, behind⟩ := ih (by omega)
        refine ⟨lower, by omega, found, fun k' above to' => ?_⟩
        rcases Nat.eq_or_lt_of_le to' with rfl | below
        · exact absent
        · exact behind k' above (by omega)

/-! ## What is left of the code space -/

/-- What the codes of the lengths from `j` to `j + passes` take of the longest ones. -/
def takenFrom (c : Nat → Nat) : (passes j : Nat) → Nat
  | 0, j => c j
  | passes + 1, j => c j * 2 ^ (passes + 1) + takenFrom c passes (j + 1)

theorem leftOver_eq (c : Nat → Nat) (passes j y : Nat) :
    leftOver c passes j y =
      if takenFrom c passes j ≤ y * 2 ^ passes then
        some ((y * 2 ^ passes - takenFrom c passes j : Nat) : Int)
      else none := by
  induction passes generalizing j y with
  | zero =>
      rw [leftOver, takenFrom, pow_zero, mul_one]
      by_cases enough : c j ≤ y
      · rw [if_neg (by omega), if_pos enough]
        congr 1
        omega
      · rw [if_pos (by omega), if_neg enough]
  | succ passes ih =>
      rw [leftOver, takenFrom]
      by_cases enough : c j ≤ y
      · have doubled : ((y : Int) - c j) * 2 = ((y - c j) * 2 : Nat) := by omega
        have share : (y - c j) * 2 * 2 ^ passes =
            y * 2 ^ (passes + 1) - c j * 2 ^ (passes + 1) := by
          rw [← Nat.sub_mul, pow_succ', Nat.mul_assoc]
        have room : c j * 2 ^ (passes + 1) ≤ y * 2 ^ (passes + 1) :=
          Nat.mul_le_mul_right _ enough
        rw [if_neg (by omega), doubled, ih, share]
        by_cases fits : takenFrom c passes (j + 1) ≤ y * 2 ^ (passes + 1) - c j * 2 ^ (passes + 1)
        · rw [if_pos fits, if_pos (by omega)]
          congr 2
          omega
        · rw [if_neg fits, if_neg (by omega)]
      · have larger : (y + 1) * 2 ^ (passes + 1) ≤ c j * 2 ^ (passes + 1) :=
          Nat.mul_le_mul_right _ (by omega)
        have positive := Nat.two_pow_pos (passes + 1)
        rw [Nat.add_mul, one_mul] at larger
        rw [if_pos (by omega), if_neg (by omega)]

theorem weight_takenFrom (c : Nat → Nat) (passes j : Nat) :
    CodeTree.weight (j + 1 + passes) (lengthsOf c j) + takenFrom c passes (j + 1) =
      CodeTree.weight (j + 1 + passes) (lengthsOf c (j + 1 + passes)) := by
  induction passes generalizing j with
  | zero => simp [takenFrom, lengthsOf]
  | succ passes ih =>
      have total : j + 1 + (passes + 1) = j + 1 + 1 + passes := by omega
      rw [total]
      have rest := ih (j + 1)
      have exponent : j + 1 + 1 + passes - (j + 1) = passes + 1 := by omega
      rw [lengthsOf, CodeTree.weight_append, CodeTree.weight_replicate, exponent] at rest
      rw [takenFrom, ← rest]
      exact (Nat.add_assoc _ _ _).symm

/-- `y` is what all codes leave of the longest ones, if they do not take too much. -/
theorem leftOver_weight {c : Nat → Nat} {j i : Nat} (positive : 1 ≤ j) (ordered : j ≤ i)
    (none : ∀ k, 1 ≤ k → k < j → c k = 0) :
    leftOver c (i - j) j (2 ^ j) =
      if CodeTree.weight i (lengthsOf c i) ≤ 2 ^ i then
        some ((2 ^ i - CodeTree.weight i (lengthsOf c i) : Nat) : Int)
      else Option.none := by
  obtain ⟨before, rfl⟩ := Nat.exists_eq_add_of_le' positive
  obtain ⟨passes, rfl⟩ := Nat.exists_eq_add_of_le ordered
  have empty : lengthsOf c before = [] :=
    lengthsOf_eq_nil fun k positive bound => none k positive (by omega)
  have taken := weight_takenFrom c passes before
  rw [empty, CodeTree.weight_nil, Nat.zero_add] at taken
  have cast : (2 : Int) ^ (before + 1) = ((2 ^ (before + 1) : Nat) : Int) := by
    push_cast
    rfl
  rw [Nat.add_sub_cancel_left, cast, leftOver_eq, ← taken, ← pow_add]

/-! ## Values in order -/

/-- The places of the values of the lengths do not overlap. -/
def Separate (x : Nat → Nat) (b : List Nat) : Prop :=
  ∀ k k', 1 ≤ k → k < k' → k' ≤ bmax → x k + b.count k ≤ x k'

/-- Each value has come to the next place of its length, and no other place has changed. -/
structure Sorted (b : List Nat) (i : Nat) (x : List Nat) (v sorted : Nat → Nat) : Prop where
  kept : ∀ place,
    (∀ k, 1 ≤ k → k ≤ bmax → place < x.getD k 0 ∨ x.getD k 0 + b.count k ≤ place) →
    sorted place = v place
  placed : ∀ t (inside : t < b.length), b[t] ≠ 0 →
    sorted (x.getD b[t] 0 + (b.take t).count b[t]) = i + t

section Step

variable {j i : Nat} {b x x' : List Nat} {v v' sorted : Nat → Nat}

theorem count_cons_ite (j k : Nat) (b : List Nat) :
    (j :: b).count k = b.count k + if j = k then 1 else 0 := by
  rw [List.count_cons]
  simp

/-- What is left of separate places is separate. -/
theorem Separate.tail (separate : Separate (fun k => x.getD k 0) (j :: b))
    (moved : ∀ k, 1 ≤ k → k ≤ bmax → x'.getD k 0 = x.getD k 0 + if j = k then 1 else 0) :
    Separate (fun k => x'.getD k 0) b := by
  intro k k' positive less bound
  have before := separate k k' positive less bound
  rw [count_cons_ite] at before
  dsimp only at before ⊢
  rw [moved k positive (by omega), moved k' (by omega) bound]
  omega

/-- The place of a value is none of those that are left. -/
theorem Separate.head (separate : Separate (fun k => x.getD k 0) (j :: b)) (jBound : j ≤ bmax)
    (moved : ∀ k, 1 ≤ k → k ≤ bmax → x'.getD k 0 = x.getD k 0 + if j = k then 1 else 0)
    (nonzero : j ≠ 0) {k : Nat} (positive : 1 ≤ k) (bound : k ≤ bmax) :
    x.getD j 0 < x'.getD k 0 ∨ x'.getD k 0 + b.count k ≤ x.getD j 0 := by
  rw [moved k positive bound]
  rcases Nat.lt_trichotomy k j with less | rfl | greater
  · have apart := separate k j positive less jBound
    have different : ¬ j = k := by omega
    rw [count_cons_ite, if_neg different] at apart
    dsimp only at apart
    rw [if_neg different]
    omega
  · rw [if_pos rfl]
    omega
  · have apart := separate j k (by omega) greater bound
    rw [count_cons_ite, if_pos rfl] at apart
    dsimp only at apart
    omega

/-- Whether there is a value to place or not, the places left follow those of before. -/
theorem Sorted.cons (rest : Sorted b (i + 1) x' v' sorted) (jBound : j ≤ bmax)
    (tailBounded : ∀ k ∈ b, k ≤ bmax) (separate : Separate (fun k => x.getD k 0) (j :: b))
    (moved : ∀ k, 1 ≤ k → k ≤ bmax → x'.getD k 0 = x.getD k 0 + if j = k then 1 else 0)
    (others : ∀ place, place ≠ x.getD j 0 ∨ j = 0 → v' place = v place)
    (here : j ≠ 0 → v' (x.getD j 0) = i) : Sorted (j :: b) i x v sorted where
  kept place outside := by
    rw [rest.kept place, others place]
    · by_cases zero : j = 0
      · exact .inr zero
      · have apart := outside j (by omega) jBound
        rw [count_cons_ite, if_pos rfl] at apart
        exact .inl (by omega)
    · intro k positive bound
      have apart := outside k positive bound
      rw [count_cons_ite] at apart
      rw [moved k positive bound]
      omega
  placed t inside nonzero := by
    cases t with
    | zero =>
        rw [List.getElem_cons_zero] at nonzero ⊢
        rw [List.take_zero, List.count_nil, Nat.add_zero (x.getD j 0), Nat.add_zero i, rest.kept,
          here nonzero]
        intro k positive bound
        exact separate.head jBound moved nonzero positive bound
    | succ t =>
        rw [List.getElem_cons_succ] at nonzero ⊢
        have inside' : t < b.length := by simpa using inside
        have member : b[t] ∈ b := List.getElem_mem inside'
        have value := rest.placed t inside' nonzero
        rw [moved _ (by omega) (tailBounded _ member)] at value
        rw [List.take_succ_cons, List.count_cons]
        simp only [beq_iff_eq]
        rw [Nat.add_comm (List.count _ _), ← Nat.add_assoc, value]
        omega

end Step

/-- Where the places of the values are separate, the values are sorted. -/
theorem sortValues_spec (b : List Nat) (i : Nat) (x : List Nat) (v : Nat → Nat)
    (bounded : ∀ k ∈ b, k ≤ bmax) (full : x.length = bmax + 1)
    (separate : Separate (fun k => x.getD k 0) b) : Sorted b i x v (sortValues b i x v) := by
  induction b generalizing i x v with
  | nil => exact ⟨fun _ _ => rfl, fun t inside => absurd inside (Nat.not_lt_zero t)⟩
  | cons j b ih =>
      have tailBounded : ∀ k ∈ b, k ≤ bmax := fun k member =>
        bounded k (List.mem_cons_of_mem _ member)
      have jBound : j ≤ bmax := bounded j List.mem_cons_self
      by_cases zero : j = 0
      · rw [sortValues, if_neg (not_not.mpr zero)]
        have moved : ∀ k, 1 ≤ k → k ≤ bmax →
            x.getD k 0 = x.getD k 0 + if j = k then 1 else 0 := fun k positive bound => by
          rw [if_neg (by omega), Nat.add_zero]
        exact (ih (i + 1) x v tailBounded full (separate.tail moved)).cons jBound tailBounded
          separate moved (fun _ _ => rfl) fun nonzero => absurd zero nonzero
      · rw [sortValues, if_pos zero]
        have moved : ∀ k, 1 ≤ k → k ≤ bmax → (x.modify j (· + 1)).getD k 0 =
            x.getD k 0 + if j = k then 1 else 0 := fun k positive bound =>
          getD_modify_succ x (by omega)
        apply (ih (i + 1) _ _ tailBounded (by rw [List.length_modify, full])
          (separate.tail moved)).cons jBound tailBounded separate moved
        · intro place other
          rw [Function.update_of_ne (other.resolve_right zero)]
        · intro _
          rw [Function.update_self]

end Cromwell.Gzip
