import Cromwell.Std.CodeTree

/-!
# Canonical codes

A canonical code is given by how many words there are of each length. The words of one
length are consecutive numbers, and the first of them comes behind the words of the
lengths before, with a bit added for each further length. In the tree of such a code
the leaves stand in the order of their lengths.
-/

namespace Cromwell.Std

open CodeTree

/-- The number of the first word of a length. -/
def firstCode (count : Nat → Nat) : (length : Nat) → Nat
  | 0 => 0
  | 1 => 0
  | length + 2 => 2 * (firstCode count (length + 1) + count (length + 1))

/-- The word of the given rank among those of a length, its highest bit first. -/
def canonicalWord (count : Nat → Nat) (length rank : Nat) : List Bool :=
  (numberBits length (firstCode count length + rank)).reverse

/-- The lengths from 1 on, each as often as there are words of it. -/
def lengthsOf (count : Nat → Nat) : (limit : Nat) → List Nat
  | 0 => []
  | limit + 1 => lengthsOf count limit ++ List.replicate (count (limit + 1)) (limit + 1)

section Lengths

variable (count : Nat → Nat)

theorem mem_lengthsOf {limit k : Nat} (member : k ∈ lengthsOf count limit) :
    1 ≤ k ∧ k ≤ limit := by
  induction limit with
  | zero => exact absurd member List.not_mem_nil
  | succ limit ih =>
      rcases List.mem_append.mp member with before | last
      · have bounds := ih before
        omega
      · have same := List.eq_of_mem_replicate last
        omega

theorem sorted_lengthsOf (limit : Nat) : (lengthsOf count limit).Pairwise (· ≤ ·) := by
  induction limit with
  | zero => exact List.Pairwise.nil
  | succ limit ih =>
      apply List.pairwise_append.mpr
      refine ⟨ih, List.pairwise_replicate.mpr (.inr (Nat.le_refl _)), ?_⟩
      intro k before k' last
      have bounds := mem_lengthsOf count before
      have same := List.eq_of_mem_replicate last
      omega

theorem count_lengthsOf {limit k : Nat} (positive : 1 ≤ k) (bound : k ≤ limit) :
    (lengthsOf count limit).count k = count k := by
  induction limit with
  | zero => omega
  | succ limit ih =>
      rw [lengthsOf, List.count_append, List.count_replicate]
      rcases Nat.eq_or_lt_of_le bound with rfl | below
      · have none : (lengthsOf count limit).count (limit + 1) = 0 := by
          apply List.count_eq_zero.mpr
          intro member
          have bounds := mem_lengthsOf count member
          omega
        simp [none]
      · have different : ¬ limit + 1 = k := by omega
        rw [ih (by omega)]
        simp [different]

/-- The lengths up to some point come first. -/
theorem lengthsOf_isPrefix {limit k : Nat} (bound : k ≤ limit) :
    lengthsOf count k <+: lengthsOf count limit := by
  induction limit with
  | zero =>
      obtain rfl : k = 0 := Nat.le_zero.mp bound
      exact List.prefix_rfl
  | succ limit ih =>
      rcases Nat.eq_or_lt_of_le bound with rfl | below
      · exact List.prefix_rfl
      · exact (ih (by omega)).trans (List.prefix_append _ _)

variable {count}

theorem lengthsOf_congr {count' : Nat → Nat} {limit : Nat}
    (same : ∀ k, 1 ≤ k → k ≤ limit → count k = count' k) :
    lengthsOf count limit = lengthsOf count' limit := by
  induction limit with
  | zero => rfl
  | succ limit ih =>
      rw [lengthsOf, lengthsOf, ih fun k positive bound => same k positive (by omega),
        same (limit + 1) (by omega) (Nat.le_refl _)]

theorem lengthsOf_eq_nil {limit : Nat} (none : ∀ k, 1 ≤ k → k ≤ limit → count k = 0) :
    lengthsOf count limit = [] := by
  induction limit with
  | zero => rfl
  | succ limit ih =>
      rw [lengthsOf, ih fun k positive bound => none k positive (by omega),
        none (limit + 1) (by omega) (Nat.le_refl _)]
      rfl

theorem firstCode_congr {count' : Nat → Nat} {limit : Nat}
    (same : ∀ k, 1 ≤ k → k < limit → count k = count' k) :
    firstCode count limit = firstCode count' limit := by
  induction limit with
  | zero => rfl
  | succ limit ih =>
      cases limit with
      | zero => rfl
      | succ limit =>
          rw [firstCode, firstCode, ih fun k positive bound => same k positive (by omega),
            same (limit + 1) (by omega) (by omega)]

/-- The first word of a length comes behind what the shorter words take. -/
theorem firstCode_weight {limit k : Nat} (bound : k < limit) :
    firstCode count (k + 1) * 2 ^ (limit - (k + 1)) =
      CodeTree.weight limit (lengthsOf count k) := by
  induction k with
  | zero => simp [firstCode, lengthsOf]
  | succ k ih =>
      have half : 2 ^ (limit - (k + 1)) = 2 * 2 ^ (limit - (k + 2)) := by
        rw [← pow_succ', show limit - (k + 2) + 1 = limit - (k + 1) by omega]
      have before := ih (by omega)
      rw [lengthsOf, CodeTree.weight_append, CodeTree.weight_replicate, ← before, firstCode, half]
      ring

end Lengths

/-- The number a word spells from its highest bit on, it spells backwards from the lowest. -/
theorem codeValue_eq_bitsValue (code : List Bool) : codeValue code = bitsValue code.reverse := by
  induction code with
  | nil => rfl
  | cons bit rest ih =>
      rw [codeValue, List.reverse_cons, bitsValue_append, List.length_reverse, ih]
      simp [bitsValue]
      ring

@[simp] theorem length_canonicalWord (count : Nat → Nat) (length rank : Nat) :
    (canonicalWord count length rank).length = length := by
  simp [canonicalWord]

/-- In a tree whose leaves stand in the order of their lengths, the words are canonical. -/
theorem codes_canonical {tree : CodeTree} {count : Nat → Nat} {limit length rank : Nat}
    (depths : tree.depths 0 = lengthsOf count limit) (positive : 1 ≤ length)
    (bound : length ≤ limit) (below : rank < count length) :
    tree.codes[(lengthsOf count (length - 1)).length + rank]? =
      some (canonicalWord count length rank) := by
  obtain ⟨shorter, rfl⟩ := Nat.exists_eq_add_of_le' positive
  rw [Nat.add_sub_cancel]
  have fits : 0 + tree.height ≤ limit := by
    have deepest := tree.height_mem 0
    rw [depths] at deepest
    exact (mem_lengthsOf count deepest).2
  have start : lengthsOf count (shorter + 1) <+: lengthsOf count limit :=
    lengthsOf_isPrefix count bound
  obtain ⟨longer, split⟩ := start
  rw [lengthsOf] at split
  have total : (lengthsOf count shorter).length + rank < tree.size := by
    rw [← CodeTree.length_depths tree 0, depths, ← split]
    simp only [List.length_append, List.length_replicate]
    omega
  have taken : (tree.depths 0).take ((lengthsOf count shorter).length + rank) =
      lengthsOf count shorter ++ List.replicate rank (shorter + 1) := by
    rw [depths, ← split, List.append_assoc, List.take_length_add_append,
      List.take_append_of_le_length (by rw [List.length_replicate]; omega), List.take_replicate,
      Nat.min_eq_left (Nat.le_of_lt below)]
  have inside : (lengthsOf count shorter).length + rank < tree.codes.length := by
    rwa [CodeTree.length_codes]
  have value := CodeTree.codeValue_codes tree fits (List.getElem?_eq_getElem inside)
  have deep : (tree.codes[(lengthsOf count shorter).length + rank]).length = shorter + 1 := by
    have item : (tree.depths 0)[(lengthsOf count shorter).length + rank]? = some (shorter + 1) := by
      rw [depths, ← split, List.append_assoc, List.getElem?_append_right (Nat.le_add_right _ _),
        Nat.add_sub_cancel_left, List.getElem?_append_left (by rwa [List.length_replicate]),
        List.getElem?_replicate_of_lt below]
    rw [CodeTree.depths_eq, List.getElem?_map, List.getElem?_eq_getElem inside] at item
    simpa using item
  rw [taken, CodeTree.weight_append, CodeTree.weight_replicate, deep, Nat.zero_add,
    ← firstCode_weight bound, ← Nat.add_mul] at value
  have number := Nat.eq_of_mul_eq_mul_right (Nat.two_pow_pos _) value
  rw [List.getElem?_eq_getElem inside]
  congr 1
  apply codeValue_inj
  · rw [deep, length_canonicalWord]
  · have small := codeValue_lt (tree.codes[(lengthsOf count shorter).length + rank])
    rw [number, deep] at small
    rw [number, canonicalWord, codeValue_eq_bitsValue, List.reverse_reverse, bitsValue_numberBits,
      Nat.mod_eq_of_lt small]

end Cromwell.Std
