import Cromwell.Std.BitStream

/-!
# Trees of binary codes

A complete code is a binary tree: every leaf is a word, spelled by the way to it. The
leaves are numbered from left to right. A list of depths that does not decrease is that
of a tree when the shares of the code space that the words take fill it. Level by level,
the nodes of a tree are counted by those above that are no leaves.
-/

namespace Cromwell.Std

/-- The shape of a complete code. -/
inductive CodeTree where
  | leaf
  | node (zero one : CodeTree)
  deriving Repr, DecidableEq

namespace CodeTree

/-- The number of leaves. -/
def size : CodeTree → Nat
  | leaf => 1
  | node zero one => zero.size + one.size

/-- The number of nodes that are no leaves. -/
def inner : CodeTree → Nat
  | leaf => 0
  | node zero one => zero.inner + one.inner + 1

def height : CodeTree → Nat
  | leaf => 0
  | node zero one => max zero.height one.height + 1

/-- The depths of the leaves of a tree that hangs at some depth. -/
def depths (depth : Nat) : CodeTree → List Nat
  | leaf => [depth]
  | node zero one => zero.depths (depth + 1) ++ one.depths (depth + 1)

/-- The words of the leaves. -/
def codes : CodeTree → List (List Bool)
  | leaf => [[]]
  | node zero one => zero.codes.map (false :: ·) ++ one.codes.map (true :: ·)

/-- The nodes at a level that are no leaves. -/
def nodesAt : CodeTree → Nat → Nat
  | leaf, _ => 0
  | node _ _, 0 => 1
  | node zero one, level + 1 => zero.nodesAt level + one.nodesAt level

/-- The leaves at a level. -/
def leavesAt : CodeTree → Nat → Nat
  | leaf, 0 => 1
  | leaf, _ + 1 => 0
  | node _ _, 0 => 0
  | node zero one, level + 1 => zero.leavesAt level + one.leavesAt level

section Leaves

variable (tree : CodeTree)

theorem size_pos : 0 < tree.size := by
  induction tree with
  | leaf => exact Nat.one_pos
  | node zero one ihZero ihOne => exact Nat.add_pos_left ihZero _

/-- There is one leaf more than there are other nodes. -/
theorem inner_succ : tree.inner + 1 = tree.size := by
  induction tree with
  | leaf => rfl
  | node zero one ihZero ihOne =>
      rw [inner, size]
      omega

@[simp] theorem length_depths (depth : Nat) : (tree.depths depth).length = tree.size := by
  induction tree generalizing depth with
  | leaf => rfl
  | node zero one ihZero ihOne => simp [depths, size, ihZero, ihOne]

@[simp] theorem length_codes : tree.codes.length = tree.size := by
  induction tree with
  | leaf => rfl
  | node zero one ihZero ihOne => simp [codes, size, ihZero, ihOne]

/-- A word is as long as its leaf is deep. -/
theorem depths_eq (depth : Nat) :
    tree.depths depth = tree.codes.map fun code => depth + code.length := by
  induction tree generalizing depth with
  | leaf => rfl
  | node zero one ihZero ihOne =>
      simp [depths, codes, ihZero, ihOne, Function.comp_def, Nat.add_assoc, Nat.add_comm 1]

theorem le_of_mem_depths {depth k : Nat} (member : k ∈ tree.depths depth) : depth ≤ k := by
  rw [depths_eq, List.mem_map] at member
  obtain ⟨code, -, rfl⟩ := member
  exact Nat.le_add_right depth _

theorem mem_depths_le {depth k : Nat} (member : k ∈ tree.depths depth) :
    k ≤ depth + tree.height := by
  induction tree generalizing depth with
  | leaf => exact Nat.le_of_eq (List.mem_singleton.mp member)
  | node zero one ihZero ihOne =>
      rw [height]
      rcases List.mem_append.mp member with inZero | inOne
      · have below := ihZero inZero
        omega
      · have below := ihOne inOne
        omega

/-- The height is reached. -/
theorem height_mem (depth : Nat) : depth + tree.height ∈ tree.depths depth := by
  induction tree generalizing depth with
  | leaf => exact List.mem_singleton.mpr rfl
  | node zero one ihZero ihOne =>
      rw [height, depths, List.mem_append]
      rcases Nat.le_total zero.height one.height with less | more
      · have total : depth + (max zero.height one.height + 1) = depth + 1 + one.height := by omega
        rw [total]
        exact .inr (ihOne (depth + 1))
      · have total : depth + (max zero.height one.height + 1) = depth + 1 + zero.height := by omega
        rw [total]
        exact .inl (ihZero (depth + 1))

/-- A word below a node goes on in one of the children. -/
theorem exists_child {zero one : CodeTree} {r : Nat} {word : List Bool}
    (leaf : (node zero one).codes[r]? = some word) :
    (∃ rest, word = false :: rest ∧ zero.codes[r]? = some rest) ∨
      ∃ rest r', word = true :: rest ∧ r = zero.size + r' ∧ one.codes[r']? = some rest := by
  rw [codes] at leaf
  rcases Nat.lt_or_ge r zero.size with left | right
  · rw [List.getElem?_append_left (by simpa using left), List.getElem?_map] at leaf
    obtain ⟨rest, inside, rfl⟩ := Option.map_eq_some_iff.mp leaf
    exact .inl ⟨rest, rfl, inside⟩
  · rw [List.getElem?_append_right (by simpa using right), List.getElem?_map] at leaf
    obtain ⟨rest, inside, rfl⟩ := Option.map_eq_some_iff.mp leaf
    rw [List.length_map, length_codes] at inside
    exact .inr ⟨rest, r - zero.size, rfl, by omega, inside⟩

/-- The leaves of a level are counted by their depth. -/
theorem count_depths (depth level : Nat) :
    (tree.depths depth).count (depth + level) = tree.leavesAt level := by
  induction tree generalizing depth level with
  | leaf =>
      cases level with
      | zero => simp [depths, leavesAt]
      | succ level => simp [depths, leavesAt]
  | node zero one ihZero ihOne =>
      rw [depths, List.count_append]
      cases level with
      | zero =>
          have above : ∀ tree : CodeTree, (tree.depths (depth + 1)).count (depth + 0) = 0 := by
            intro tree
            apply List.count_eq_zero.mpr
            intro member
            have deep := tree.le_of_mem_depths member
            omega
          rw [above, above, leavesAt]
      | succ level =>
          have shifted : depth + (level + 1) = depth + 1 + level := by omega
          rw [shifted, ihZero, ihOne, leavesAt]

/-- Every node has two children. -/
theorem nodesAt_succ (level : Nat) :
    tree.nodesAt (level + 1) + tree.leavesAt (level + 1) = 2 * tree.nodesAt level := by
  induction tree generalizing level with
  | leaf => rfl
  | node zero one ihZero ihOne =>
      rw [nodesAt, leavesAt]
      cases level with
      | zero =>
          have child : ∀ tree : CodeTree, tree.nodesAt 0 + tree.leavesAt 0 = 1 := by
            intro tree
            cases tree with
            | leaf => rfl
            | node zero one => rfl
          have left := child zero
          have right := child one
          rw [nodesAt]
          omega
      | succ level =>
          have left := ihZero level
          have right := ihOne level
          rw [nodesAt]
          omega

theorem nodesAt_pos {level : Nat} (inside : level < tree.height) : 0 < tree.nodesAt level := by
  induction tree generalizing level with
  | leaf => exact absurd inside (Nat.not_lt_zero level)
  | node zero one ihZero ihOne =>
      cases level with
      | zero => exact Nat.one_pos
      | succ level =>
          rw [height] at inside
          rw [nodesAt]
          rcases Nat.lt_or_ge level zero.height with less | more
          · have some := ihZero less
            omega
          · have some : level < one.height → 0 < one.nodesAt level := ihOne
            omega

/-- The last level has leaves only. -/
theorem nodesAt_eq_zero {level : Nat} (outside : tree.height ≤ level) : tree.nodesAt level = 0 := by
  induction tree generalizing level with
  | leaf => rfl
  | node zero one ihZero ihOne =>
      rw [height] at outside
      cases level with
      | zero => omega
      | succ level => rw [nodesAt, ihZero (by omega), ihOne (by omega)]

/-- A level below which nothing has ended is full. -/
theorem level_full {level : Nat} (none : ∀ above < level, tree.leavesAt above = 0) :
    tree.nodesAt level + tree.leavesAt level = 2 ^ level := by
  induction level with
  | zero =>
      cases tree with
      | leaf => rfl
      | node zero one => rfl
  | succ level ih =>
      have above := ih fun before less => none before (by omega)
      have ended := none level (Nat.lt_succ_self level)
      rw [nodesAt_succ, pow_succ]
      omega

theorem level_le_size (level : Nat) : tree.nodesAt level + tree.leavesAt level ≤ tree.size := by
  induction tree generalizing level with
  | leaf =>
      cases level with
      | zero => exact Nat.le_refl 1
      | succ level => exact Nat.zero_le 1
  | node zero one ihZero ihOne =>
      rw [size]
      cases level with
      | zero =>
          have positive := zero.size_pos
          rw [nodesAt, leavesAt]
          omega
      | succ level =>
          have left := ihZero level
          have right := ihOne level
          rw [nodesAt, leavesAt]
          omega

/-- A tree with few leaves has one near its root. -/
theorem exists_near (depth : Nat) {level : Nat} (few : tree.size < 2 ^ level) :
    ∃ k ∈ tree.depths depth, k < depth + level := by
  by_contra none
  push Not at none
  have clear : ∀ above < level, tree.leavesAt above = 0 := by
    intro above less
    rw [← count_depths tree depth]
    apply List.count_eq_zero.mpr
    intro member
    have deep := none _ member
    omega
  have full := tree.level_full clear
  have bound := tree.level_le_size level
  omega

end Leaves

/-! ## Shares of the code space -/

/-- What words of some lengths take of `2 ^ limit` words of length `limit`. -/
def weight (limit : Nat) (lengths : List Nat) : Nat :=
  (lengths.map fun length => 2 ^ (limit - length)).sum

section Weight

variable {limit : Nat}

@[simp] theorem weight_nil : weight limit [] = 0 := rfl

@[simp] theorem weight_cons (length : Nat) (lengths : List Nat) :
    weight limit (length :: lengths) = 2 ^ (limit - length) + weight limit lengths := by
  simp [weight]

@[simp] theorem weight_append (first second : List Nat) :
    weight limit (first ++ second) = weight limit first + weight limit second := by
  simp [weight]

@[simp] theorem weight_replicate (count length : Nat) :
    weight limit (List.replicate count length) = count * 2 ^ (limit - length) := by
  simp [weight]

theorem eq_nil_of_weight_zero {lengths : List Nat} (none : weight limit lengths = 0) :
    lengths = [] := by
  cases lengths with
  | nil => rfl
  | cons length lengths =>
      have share := Nat.two_pow_pos (limit - length)
      rw [weight_cons] at none
      omega

/-- The words of a tree fill the code space. -/
theorem weight_depths (tree : CodeTree) {depth : Nat} (fits : depth + tree.height ≤ limit) :
    weight limit (tree.depths depth) = 2 ^ (limit - depth) := by
  induction tree generalizing depth with
  | leaf => simp [depths]
  | node zero one ihZero ihOne =>
      rw [height] at fits
      have half : limit - depth = limit - (depth + 1) + 1 := by omega
      rw [depths, weight_append, ihZero (by omega), ihOne (by omega), half, pow_succ]
      omega

/-- Lengths that do not decrease and take at least the code space begin with those of a
tree. -/
theorem exists_prefix {depth : Nat} {lengths : List Nat} (sorted : lengths.Pairwise (· ≤ ·))
    (deep : ∀ k ∈ lengths, depth ≤ k ∧ k ≤ limit)
    (enough : 2 ^ (limit - depth) ≤ weight limit lengths) :
    ∃ (tree : CodeTree) (rest : List Nat), lengths = tree.depths depth ++ rest ∧
      depth + tree.height ≤ limit := by
  induction hang : limit - depth generalizing depth lengths with
  | zero =>
      cases lengths with
      | nil =>
          have share := Nat.two_pow_pos (limit - depth)
          rw [weight_nil] at enough
          omega
      | cons k lengths =>
          have bounds := deep k List.mem_cons_self
          obtain rfl : k = depth := by omega
          exact ⟨leaf, lengths, rfl, bounds.2⟩
  | succ hang ih =>
      cases lengths with
      | nil =>
          have share := Nat.two_pow_pos (limit - depth)
          rw [weight_nil] at enough
          omega
      | cons k lengths =>
          rcases Nat.eq_or_lt_of_le (deep k List.mem_cons_self).1 with rfl | below
          · exact ⟨leaf, lengths, rfl, (deep _ List.mem_cons_self).2⟩
          · have deeper : ∀ k' ∈ k :: lengths, depth + 1 ≤ k' ∧ k' ≤ limit := by
              intro k' member
              refine ⟨?_, (deep k' member).2⟩
              rcases List.mem_cons.mp member with rfl | later
              · exact below
              · exact Nat.le_trans below (List.rel_of_pairwise_cons sorted later)
            have half : 2 ^ (limit - depth) = 2 * 2 ^ (limit - (depth + 1)) := by
              rw [← pow_succ', show limit - (depth + 1) + 1 = limit - depth by omega]
            obtain ⟨zero, rest, split, zeroFits⟩ :=
              ih sorted deeper (by omega) (by omega)
            have share := weight_depths zero zeroFits
            rw [split, weight_append, share] at enough
            rw [split] at sorted deeper
            obtain ⟨one, rest', split', oneFits⟩ :=
              ih (List.pairwise_append.mp sorted).2.1
                (fun k' member => deeper k' (List.mem_append_right _ member)) (by omega) (by omega)
            refine ⟨node zero one, rest', ?_, ?_⟩
            · rw [split, split', depths, List.append_assoc]
            · rw [height]
              omega

/-- Lengths that do not decrease and take just the code space are those of a tree. -/
theorem exists_of_weight {lengths : List Nat} (sorted : lengths.Pairwise (· ≤ ·))
    (bounded : ∀ k ∈ lengths, k ≤ limit) (complete : weight limit lengths = 2 ^ limit) :
    ∃ tree : CodeTree, tree.depths 0 = lengths ∧ tree.height ≤ limit := by
  have enough : 2 ^ (limit - 0) ≤ weight limit lengths := Nat.le_of_eq complete.symm
  obtain ⟨tree, rest, split, fits⟩ := exists_prefix sorted
    (fun k member => ⟨Nat.zero_le k, bounded k member⟩) enough
  have share := weight_depths tree fits
  rw [Nat.sub_zero] at share
  rw [split, weight_append, share] at complete
  have nothing := eq_nil_of_weight_zero (by omega : weight limit rest = 0)
  rw [nothing, List.append_nil] at split
  exact ⟨tree, split.symm, by omega⟩

end Weight

/-! ## Words as numbers -/

/-- The number that a word spells, its first bit the highest. -/
def codeValue : List Bool → Nat
  | [] => 0
  | bit :: rest => bit.toNat * 2 ^ rest.length + codeValue rest

theorem codeValue_lt (code : List Bool) : codeValue code < 2 ^ code.length := by
  induction code with
  | nil => simp [codeValue]
  | cons bit rest ih =>
      have small := Bool.toNat_le bit
      have share := Nat.mul_le_mul_right (2 ^ rest.length) small
      rw [codeValue, List.length_cons, pow_succ]
      omega

/-- Words of one length that spell the same number are the same. -/
theorem codeValue_inj {first second : List Bool} (lengths : first.length = second.length)
    (values : codeValue first = codeValue second) : first = second := by
  induction first generalizing second with
  | nil => exact (List.length_eq_zero_iff.mp lengths.symm).symm
  | cons bit first ih =>
      cases second with
      | nil => simp at lengths
      | cons bit' second =>
          have same : first.length = second.length := by simpa using lengths
          have low := codeValue_lt first
          have low' := codeValue_lt second
          rw [codeValue, codeValue, same] at values
          rw [same] at low
          cases bit with
          | false =>
              cases bit' with
              | false => rw [ih same (by simpa using values)]
              | true =>
                  simp at values
                  omega
          | true =>
              cases bit' with
              | false =>
                  simp at values
                  omega
              | true => rw [ih same (by simpa using values)]

/-- A word comes where the words before it end. -/
theorem codeValue_codes (tree : CodeTree) {limit depth m : Nat} {code : List Bool}
    (fits : depth + tree.height ≤ limit) (leaf : tree.codes[m]? = some code) :
    codeValue code * 2 ^ (limit - (depth + code.length)) =
      weight limit ((tree.depths depth).take m) := by
  induction tree generalizing depth m code with
  | leaf =>
      obtain ⟨rfl, rfl⟩ : m = 0 ∧ [] = code := by simpa [codes, List.getElem?_singleton] using leaf
      exact Nat.zero_mul _
  | node zero one ihZero ihOne =>
      rw [height] at fits
      rw [depths]
      rcases exists_child leaf with ⟨rest, rfl, left⟩ | ⟨rest, r, rfl, rfl, right⟩
      · have inside := (List.getElem?_eq_some_iff.mp left).1
        rw [length_codes] at inside
        have value := @ihZero (depth + 1) m rest (by omega) left
        rw [List.take_append_of_le_length (by rw [length_depths]; omega), ← value]
        have shifted : depth + (rest.length + 1) = depth + 1 + rest.length := by omega
        rw [codeValue, List.length_cons, shifted, Bool.toNat_false, Nat.zero_mul, Nat.zero_add]
      · have value := @ihOne (depth + 1) r rest (by omega) right
        have before := length_depths zero (depth + 1)
        rw [← before, List.take_length_add_append, weight_append, ← value,
          weight_depths zero (by omega)]
        have short : depth + 1 + rest.length ≤ limit := by
          have deep : depth + 1 + rest.length ∈ one.depths (depth + 1) := by
            rw [depths_eq]
            exact List.mem_map_of_mem (List.mem_of_getElem? right)
          have bound := one.mem_depths_le deep
          omega
        have shifted : depth + (rest.length + 1) = depth + 1 + rest.length := by omega
        have share : 2 ^ rest.length * 2 ^ (limit - (depth + 1 + rest.length)) =
            2 ^ (limit - (depth + 1)) := by
          rw [← pow_add]
          congr 1
          omega
        rw [codeValue, List.length_cons, shifted, Bool.toNat_true, one_mul, Nat.add_mul, share]

end CodeTree

end Cromwell.Std
