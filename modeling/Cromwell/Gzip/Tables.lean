import Cromwell.Gzip.Counting

/-!
# Steps of the loop over the codes

A code is kept with its first bit lowest, so the bits that a table decodes are a field
of it. The backward increment goes on to the next code, the tables that the next code
has left are given up, an entry fills every place that begins with its code, and a new
table has the bits its part of the code needs.
-/

namespace Cromwell.Gzip

open Cromwell.Std Program

/-! ## Codes as numbers -/

section Codes

variable (code : List Bool)

theorem bitsValue_snoc (bit : Bool) :
    bitsValue (code ++ [bit]) = bitsValue code + 2 ^ code.length * bit.toNat := by
  rw [bitsValue_append, bitsValue, bitsValue, Nat.mul_zero, Nat.add_zero]

theorem bitsValue_take (count : Nat) :
    bitsValue code % 2 ^ count = bitsValue (code.take count) := by
  rcases Nat.le_total count code.length with short | long
  · have split := bitsValue_append (code.take count) (code.drop count)
    have small := bitsValue_lt (code.take count)
    have length : (code.take count).length = count := by simpa using short
    rw [length] at split small
    rw [List.take_append_drop] at split
    rw [split, Nat.add_mul_mod_self_left, Nat.mod_eq_of_lt small]
  · have small := lt_of_lt_of_le (bitsValue_lt code) (Nat.pow_le_pow_right (by omega) long)
    rw [List.take_of_length_le long, Nat.mod_eq_of_lt small]

theorem bitsValue_drop {count : Nat} (short : count ≤ code.length) :
    bitsValue code / 2 ^ count = bitsValue (code.drop count) := by
  have split := bitsValue_append (code.take count) (code.drop count)
  have small := bitsValue_lt (code.take count)
  have length : (code.take count).length = count := by simpa using short
  rw [length] at split small
  rw [List.take_append_drop] at split
  rw [split, Nat.add_mul_div_left _ _ (Nat.two_pow_pos count), Nat.div_eq_of_lt small,
    Nat.zero_add]

end Codes

/-! ## The backward increment -/

section Increment

variable {code : List Bool} {k i : Nat}

/-- Above a number a bit is added by exclusive or. -/
theorem xor_two_pow {n : Nat} (small : n < 2 ^ k) : n ^^^ 2 ^ k = n + 2 ^ k := by
  have joined := Nat.two_pow_add_eq_or_of_lt small 1
  rw [Nat.mul_one] at joined
  rw [Nat.add_comm, joined]
  apply Nat.eq_of_testBit_eq
  intro bit
  rw [Nat.testBit_xor, Nat.testBit_or]
  by_cases here : bit = k
  · subst here
    simp [Nat.testBit_lt_two_pow small]
  · simp [Nat.testBit_two_pow_of_ne (Ne.symm here)]

/-- A bit that is clear is set. -/
theorem increment_false :
    increment (code.length + 1) (bitsValue (code ++ [false])) = bitsValue (code ++ [true]) := by
  have small := bitsValue_lt code
  have clear : bitsValue code &&& 2 ^ code.length = 0 := by
    rw [Nat.and_two_pow, Nat.testBit_lt_two_pow small]
    simp
  rw [bitsValue_snoc, bitsValue_snoc, Bool.toNat_false, Bool.toNat_true, Nat.mul_zero, Nat.mul_one,
    Nat.add_zero (bitsValue code), increment, if_neg (not_not.mpr clear), xor_two_pow small]

/-- A bit that is set is cleared, and the bits before it go on. -/
theorem increment_true :
    increment (code.length + 1) (bitsValue (code ++ [true])) =
      increment code.length (bitsValue code) := by
  have small := bitsValue_lt code
  have set : (bitsValue code + 2 ^ code.length).testBit code.length = true := by
    rw [Nat.add_comm, Nat.testBit_two_pow_add_eq, Nat.testBit_lt_two_pow small]
    rfl
  have cleared : (bitsValue code + 2 ^ code.length) ^^^ 2 ^ code.length = bitsValue code := by
    rw [← xor_two_pow small, Nat.xor_assoc, Nat.xor_self, Nat.xor_zero]
  have nonzero : (bitsValue code + 2 ^ code.length) &&& 2 ^ code.length ≠ 0 := by
    rw [Nat.and_two_pow, set, Bool.toNat_true, Nat.one_mul]
    exact Nat.ne_of_gt (Nat.two_pow_pos _)
  rw [bitsValue_snoc, Bool.toNat_true, Nat.mul_one, increment, if_pos nonzero, cleared]

/-- Bits behind the code do not change. -/
theorem testBit_increment_of_le {bit : Nat} (behind : k ≤ bit) :
    (increment k i).testBit bit = i.testBit bit := by
  induction k generalizing i with
  | zero => rfl
  | succ k ih =>
      have other : (i ^^^ 2 ^ k).testBit bit = i.testBit bit := by
        rw [Nat.testBit_xor, Nat.testBit_two_pow_of_ne (by omega), Bool.xor_false]
      rw [increment]
      split
      · rw [ih (by omega), other]
      · exact other

/-- The last bit changes. -/
theorem testBit_increment : (increment (k + 1) i).testBit k = !i.testBit k := by
  have flipped : (i ^^^ 2 ^ k).testBit k = !i.testBit k := by
    rw [Nat.testBit_xor, Nat.testBit_two_pow_self, Bool.xor_true]
  rw [increment]
  split
  · rw [testBit_increment_of_le (Nat.le_refl k), flipped]
  · exact flipped

/-- The increment leaves the code it started from. -/
theorem increment_ne (nonempty : code ≠ []) :
    increment code.length (bitsValue code) % 2 ^ code.length ≠ bitsValue code := by
  intro same
  obtain ⟨k, length⟩ := Nat.exists_eq_succ_of_ne_zero
    (fun empty => nonempty (List.length_eq_zero_iff.mp empty))
  rw [length] at same
  have bit := congrArg (fun n : Nat => n.testBit k) same
  rw [Nat.testBit_mod_two_pow, testBit_increment] at bit
  simp at bit

end Increment

/-! ## Levels -/

/-- The levels belong to the beginnings of a code. -/
def Frames (l : Nat) (code : List Bool) : List Level → Prop
  | [] => True
  | level :: below =>
    level.x = bitsValue (code.take (l * below.length)) ∧ Frames l code below

section Levels

variable {l i : Nat} {code : List Bool} {level : Level} {below : List Level}

/-- The last level stays while the code has its beginning. -/
theorem backUp_stays (here : i % 2 ^ (l * below.length) = level.x) :
    backUp l i (level :: below) = level :: below := by
  rw [backUp, Nat.and_two_pow_sub_one_eq_mod, if_neg (not_not.mpr here)]

theorem backUp_leaves (gone : i % 2 ^ (l * below.length) ≠ level.x) :
    backUp l i (level :: below) = backUp l i below := by
  rw [backUp, Nat.and_two_pow_sub_one_eq_mod, if_pos gone]

/-- Levels above the end of a code belong to what is behind it as well. -/
theorem Frames.append {levels : List Level} (frames : Frames l code levels)
    (inside : l * (levels.length - 1) ≤ code.length) (more : List Bool) :
    Frames l (code ++ more) levels := by
  induction levels with
  | nil => trivial
  | cons level below ih =>
      rw [List.length_cons, Nat.add_sub_cancel] at inside
      refine ⟨?_, ih frames.2 (Nat.le_trans (Nat.mul_le_mul_left l (Nat.sub_le _ _)) inside)⟩
      rw [List.take_append_of_le_length inside]
      exact frames.1

end Levels

/-! ## Entries -/

theorem fillEntries_eq (r : Huft) (z f : Nat) (positive : 0 < f) (passes j : Nat) (q : Nat → Huft)
    (enough : z ≤ j + passes) (index : Nat) :
    fillEntries r z f passes j q index =
      if j ≤ index ∧ index < z ∧ (index - j) % f = 0 then r else q index := by
  induction passes generalizing j q with
  | zero => rw [fillEntries, if_neg (by omega)]
  | succ passes ih =>
      rw [fillEntries]
      by_cases inside : j < z
      · rw [if_pos inside, ih (j + f) _ (by omega)]
        rcases Nat.lt_trichotomy index j with before | rfl | behind
        · rw [if_neg (by omega), if_neg (by omega), Function.update_of_ne (by omega)]
        · rw [if_neg (by omega), Function.update_self, if_pos ⟨Nat.le_refl _, inside, by simp⟩]
        · rw [Function.update_of_ne (by omega)]
          rcases Nat.lt_or_ge index (j + f) with near | far
          · have rest : (index - j) % f = index - j := Nat.mod_eq_of_lt (by omega)
            rw [if_neg (by omega), if_neg (by omega)]
          · have rest : (index - j) % f = (index - (j + f)) % f := by
              rw [show index - j = index - (j + f) + f by omega, Nat.add_mod_right]
            have same : (j + f ≤ index ∧ index < z ∧ (index - (j + f)) % f = 0) ↔
                j ≤ index ∧ index < z ∧ (index - j) % f = 0 := by
              rw [rest]
              omega
            simp only [same]
      · rw [if_neg inside, if_neg (by omega)]

/-- An entry fills the places that begin with its code. -/
theorem fillEntries_code (r : Huft) (z : Nat) (code : List Bool) (q : Nat → Huft) (index : Nat) :
    fillEntries r z (2 ^ code.length) (z + 1) (bitsValue code) q index =
      if index < z ∧ index % 2 ^ code.length = bitsValue code then r else q index := by
  have small := bitsValue_lt code
  have same : (bitsValue code ≤ index ∧ index < z ∧
      (index - bitsValue code) % 2 ^ code.length = 0) ↔
      index < z ∧ index % 2 ^ code.length = bitsValue code := by
    constructor
    · rintro ⟨lower, upper, multiple⟩
      refine ⟨upper, ?_⟩
      obtain ⟨times, rest⟩ := Nat.dvd_of_mod_eq_zero multiple
      rw [show index = bitsValue code + 2 ^ code.length * times by omega,
        Nat.add_mul_mod_self_left, Nat.mod_eq_of_lt small]
    · rintro ⟨upper, begins⟩
      have parts := Nat.mod_add_div index (2 ^ code.length)
      rw [begins] at parts
      refine ⟨by omega, upper, ?_⟩
      rw [show index - bitsValue code = 2 ^ code.length * (index / 2 ^ code.length) by omega,
        Nat.mul_mod_right]
  rw [fillEntries_eq r z _ (Nat.two_pow_pos _) _ _ _ (by omega)]
  simp only [same]

/-! ## The size of a table -/

section TableBits

variable {c : Nat → Nat} {z w : Nat} {tree : CodeTree}

theorem smallerTables_le {passes j f k : Nat} (below : j < z) :
    smallerTables c z passes j f k ≤ z := by
  induction passes generalizing j f k with
  | zero => exact Nat.le_of_lt below
  | succ passes ih =>
      rw [smallerTables]
      split
      · split
        · omega
        · exact ih (by omega)
      · omega

/-- As long as codes of the subtree are longer, the patterns left are its inner nodes, so the
search does not stop before the table is deep enough. -/
theorem smallerTables_deep {passes j f k : Nat} (enough : z ≤ j + passes) (place : k = w + j)
    (left : j < tree.height → f = tree.nodesAt j)
    (counted : ∀ level, j < level → level < tree.height → c (w + level) = tree.leavesAt level) :
    min z tree.height ≤ smallerTables c z passes j f k := by
  induction passes generalizing j f k with
  | zero =>
      rw [smallerTables]
      omega
  | succ passes ih =>
      have next : k + 1 = w + (j + 1) := by omega
      rw [smallerTables]
      split
      · split
        · next stops =>
          rcases Nat.lt_or_ge (j + 1) tree.height with deeper | reached
          · have leaves := counted (j + 1) (Nat.lt_succ_self j) deeper
            have nodes := tree.nodesAt_pos deeper
            have children := tree.nodesAt_succ j
            rw [next, leaves, left (by omega)] at stops
            omega
          · omega
        · apply ih (by omega) next
          · intro deeper
            have leaves := counted (j + 1) (Nat.lt_succ_self j) deeper
            have children := tree.nodesAt_succ j
            rw [next, leaves, left (by omega)]
            omega
          · intro level above inside
            exact counted level (by omega) inside
      · omega

variable {plan : Plan} {k a : Nat}

/-- A table takes in as much of its subtree as a table may. -/
theorem tableBits_deep (first : w ≤ k) (deep : w + tree.height ≤ plan.g)
    (none : ∀ level, level < k - w → tree.leavesAt level = 0)
    (here : k - w < tree.height → a + 1 = tree.leavesAt (k - w))
    (counted : ∀ level, k - w < level → level < tree.height →
      plan.c (w + level) = tree.leavesAt level) :
    min plan.l tree.height ≤ tableBits plan w k a := by
  unfold tableBits
  dsimp only
  have full := tree.level_full none
  have reach : min plan.l tree.height ≤ min (min (plan.g - w) plan.l) tree.height := by omega
  split
  · apply Nat.le_trans reach
    apply smallerTables_deep (by omega) (show k = w + (k - w) by omega) _ counted
    intro deeper
    have leaves := here deeper
    omega
  · next many =>
    rcases Nat.lt_or_ge (k - w) tree.height with deeper | reached
    · have leaves := here deeper
      have nodes := tree.nodesAt_pos deeper
      omega
    · omega

/-- A table that has codes short enough is not larger than a table may be. -/
theorem tableBits_le (near : k - w < plan.l) (first : w ≤ k) (bound : k ≤ plan.g)
    (last : k = plan.g → 2 ^ (k - w) ≤ a + 1) : tableBits plan w k a ≤ plan.l := by
  unfold tableBits
  dsimp only
  split
  · next few =>
    have inner : k - w < min (plan.g - w) plan.l := by
      rcases Nat.eq_or_lt_of_le bound with deepest | less
      · have many := last deepest
        omega
      · omega
    exact Nat.le_trans (smallerTables_le inner) (Nat.min_le_right _ _)
  · omega

/-- The first table is at most one bit larger. -/
theorem tableBits_le_succ (near : k - w ≤ plan.l) : tableBits plan w k a ≤ plan.l + 1 := by
  unfold tableBits
  dsimp only
  split
  · rcases Nat.lt_or_ge (k - w) (min (plan.g - w) plan.l) with inner | outer
    · exact Nat.le_trans (smallerTables_le inner) (by omega)
    · rw [smallerTables, if_neg (by omega)]
      omega
  · omega

end TableBits

end Cromwell.Gzip
