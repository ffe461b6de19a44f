import Cromwell.Gzip.Building
import Cromwell.Gzip.Gunzip

/-!
# The tables of a set of lengths

`huft_build` returns 2 for lengths whose codes do not fit, 1 for lengths that leave
something of the code space, and 0 where the codes fill it; a single code of one bit
counts as filling it. Then the tables hold the canonical code with these lengths.
-/

namespace Cromwell.Gzip

open Cromwell.Std Program

/-! ## Lengths that fill the code space -/

/-- The share that codes of some lengths take of the `2 ^ BMAX` longest ones. -/
def shareOf (b : List Nat) : Nat := CodeTree.weight bmax (b.filter (· ≠ 0))

section Lengths

variable {b : List Nat} {g : Nat}

/-- The lengths in order are those that are given, without those that are 0. -/
theorem lengthsOf_perm (bounded : ∀ k ∈ b, k ≤ g) :
    (lengthsOf (fun k => b.count k) g).Perm (b.filter (· ≠ 0)) := by
  apply List.perm_iff_count.mpr
  intro k
  by_cases inside : 1 ≤ k ∧ k ≤ g
  · rw [count_lengthsOf _ inside.1 inside.2, List.count_filter]
    simp
    omega
  · rw [List.count_eq_zero.mpr, List.count_eq_zero.mpr]
    · intro member
      obtain ⟨given, nonzero⟩ := List.mem_filter.mp member
      have bound := bounded k given
      have positive : k ≠ 0 := by simpa using nonzero
      omega
    · intro member
      exact inside (mem_lengthsOf _ member)

theorem length_lengthsOf_le (bounded : ∀ k ∈ b, k ≤ g) :
    (lengthsOf (fun k => b.count k) g).length ≤ b.length := by
  rw [(lengthsOf_perm bounded).length_eq]
  exact List.length_filter_le _ b

/-- In a larger code space every word takes more. -/
theorem weight_scale {lengths : List Nat} {limit more : Nat} (bounded : ∀ k ∈ lengths, k ≤ limit) :
    CodeTree.weight (limit + more) lengths = CodeTree.weight limit lengths * 2 ^ more := by
  induction lengths with
  | nil => simp
  | cons k lengths ih =>
      have bound := bounded k List.mem_cons_self
      have rest := ih fun k' member => bounded k' (List.mem_cons_of_mem _ member)
      have share : limit + more - k = limit - k + more := by omega
      rw [CodeTree.weight_cons, CodeTree.weight_cons, rest, share, pow_add, Nat.add_mul]

theorem shareOf_eq (bounded : ∀ k ∈ b, k ≤ g) (bound : g ≤ bmax) :
    shareOf b = CodeTree.weight g (lengthsOf (fun k => b.count k) g) * 2 ^ (bmax - g) := by
  obtain ⟨more, whole⟩ := Nat.exists_eq_add_of_le bound
  have perm : shareOf b = CodeTree.weight bmax (lengthsOf (fun k => b.count k) g) :=
    ((lengthsOf_perm bounded).map _).sum_nat.symm
  rw [perm, whole, Nat.add_sub_cancel_left,
    weight_scale fun k member => (mem_lengthsOf _ member).2]

/-- Dummy codes of the greatest length come last. -/
theorem lengthsOf_padded {c : Nat → Nat} (positive : 1 ≤ g) (y : Nat) :
    lengthsOf (Function.update c g (c g + y)) g = lengthsOf c g ++ List.replicate y g := by
  obtain ⟨before, rfl⟩ := Nat.exists_eq_add_of_le' positive
  have same : lengthsOf (Function.update c (before + 1) (c (before + 1) + y)) before =
      lengthsOf c before := lengthsOf_congr fun k _ bound => Function.update_of_ne (by omega) _ _
  rw [lengthsOf, same, Function.update_self, List.replicate_add, lengthsOf, List.append_assoc]

/-- With the dummy codes the lengths are those of a tree. -/
theorem exists_padded {c : Nat → Nat} (positive : 1 ≤ g) (deepest : c g ≠ 0)
    (fits : CodeTree.weight g (lengthsOf c g) ≤ 2 ^ g) :
    ∃ tree : CodeTree,
      tree.depths 0 = lengthsOf (Function.update c g
        (c g + (2 ^ g - CodeTree.weight g (lengthsOf c g)))) g ∧ tree.height = g := by
  have split := lengthsOf_padded (c := c) positive (2 ^ g - CodeTree.weight g (lengthsOf c g))
  have complete : CodeTree.weight g (lengthsOf (Function.update c g
      (c g + (2 ^ g - CodeTree.weight g (lengthsOf c g)))) g) = 2 ^ g := by
    rw [split, CodeTree.weight_append, CodeTree.weight_replicate, Nat.sub_self, pow_zero,
      Nat.mul_one]
    omega
  obtain ⟨tree, depths, height⟩ := CodeTree.exists_of_weight (sorted_lengthsOf _ g)
    (fun k member => (mem_lengthsOf _ member).2) complete
  refine ⟨tree, depths, Nat.le_antisymm height ?_⟩
  have member : g ∈ tree.depths 0 := by
    rw [depths]
    apply List.count_pos_iff.mp
    rw [count_lengthsOf _ positive (Nat.le_refl g), Function.update_self]
    omega
  have bound := tree.mem_depths_le member
  omega

end Lengths

/-! ## From the first code on -/

section Whole

variable {plan : Plan} {tree : CodeTree} {j k : Nat} {rest : List Nat} {s : State} {r : Huft}

/-- The loop over all codes makes tables for the whole tree. -/
theorem placeAll_holds (shape : Shape plan [] [] 0 tree) (some : 1 ≤ plan.l)
    (deep : plan.l ≤ tree.height) (split : tree.depths 0 = k :: rest) (short : k ≤ plan.l)
    (roomy : Room plan tree.size s) :
    (placeAll plan (schedule (tree.depths 0) [])
      { i := 0, p := 0, levels := [], q := 0, z := 0, r, t := 0 }).Ensures s (fun _ => False)
      fun builder' s' => s.freeMemPtr < builder'.t ∧ builder'.t < s'.freeMemPtr ∧
        s'.freeMemPtr ≤ s.freeMemPtr + tree.size * tableBytes plan ∧ s'.freeMemPtr % 4 = 0 ∧
        s'.unbuilt = s.unbuilt ∧ (∀ q, q < s.freeMemPtr → s'.tables q = s.tables q) ∧
        Holds plan s'.tables s.freeMemPtr s'.freeMemPtr builder'.t plan.l [] 0 tree := by
  cases tree with
  | leaf => exact absurd deep (by rw [CodeTree.height]; omega)
  | node zero one =>
      obtain ⟨reach, -⟩ := shape.tableBits split
      have longer : k > plan.l * 0 := by
        have member : k ∈ (CodeTree.node zero one).depths 0 := by
          rw [split]
          exact List.mem_cons_self
        rcases List.mem_append.mp member with inZero | inOne
        · exact zero.le_of_mem_depths inZero
        · exact one.le_of_mem_depths inOne
      have fits : tableBits plan 0 k ((rest ++ []).count k) ≤ plan.l + 1 :=
        tableBits_le_succ (by omega)
      have counted := (CodeTree.node zero one).inner_succ
      rw [← counted] at roomy ⊢
      obtain ⟨room, aligned, upper⟩ := roomy.table fits
      have roomLeft := roomy.room
      rw [Nat.add_mul, Nat.one_mul] at roomLeft
      rw [split, schedule, placeAll_open some _ longer]
      apply (openTable_first rfl roomy fits).andThen
      rintro builder₁ s₁ ⟨rfl, rfl⟩
      have grown : s.freeMemPtr + sizeofHuft < s.freeMemPtr +
          (2 ^ tableBits plan 0 k ((rest ++ []).count k) + 1) * sizeofHuft := by
        have positive := Nat.two_pow_pos (tableBits plan 0 k ((rest ++ []).count k))
        unfold sizeofHuft
        omega
      generalize (2 ^ tableBits plan 0 k ((rest ++ []).count k) + 1) * sizeofHuft = bytes at *
      have begun : Begun plan (.node zero one) [] 0 plan.l ⟨s.freeMemPtr + sizeofHuft, 0⟩ []
          { i := 0, p := 0, levels := [⟨s.freeMemPtr + sizeofHuft, 0⟩]
            q := s.freeMemPtr + sizeofHuft, z := 2 ^ tableBits plan 0 k ((rest ++ []).count k), r
            t := s.freeMemPtr + sizeofHuft }
          { s with freeMemPtr := s.freeMemPtr + bytes } := by
        refine ⟨rfl, (Nat.zero_min _).symm, rfl, ⟨rfl, trivial⟩, Nat.le_refl _, Nat.zero_le _,
          grown, .inl ⟨rfl, ?_⟩, Nat.min_le_left _ _, Nat.le_refl _⟩
        apply Nat.pow_le_pow_right (by omega)
        omega
      have fewer : Room plan (zero.inner + one.inner)
          { s with freeMemPtr := s.freeMemPtr + bytes } := by
        refine ⟨aligned, Nat.lt_of_lt_of_le roomy.positive (Nat.le_add_right _ _), ?_⟩
        dsimp only
        rw [CodeTree.inner, Nat.add_mul, Nat.one_mul] at roomLeft
        omega
      have inside : ([] : List Bool).length < plan.l * (([] : List Level).length + 1) := by
        rw [List.length_nil, List.length_nil]
        omega
      have children := placeAll_children shape begun inside fewer
        (placeAll_passed some shape.left) (placeAll_passed some shape.right)
      rw [List.length_nil, split, schedule] at children
      apply children.mono (fun _ none => none)
      rintro builder₂ s₂ ⟨moved, heldZero, heldOne⟩
      have table : builder₂.t = s.freeMemPtr + sizeofHuft := moved.t
      have low : s.freeMemPtr + bytes ≤ s₂.freeMemPtr := moved.lower
      have high : s₂.freeMemPtr ≤ s.freeMemPtr + bytes +
        (zero.inner + one.inner) * tableBytes plan := moved.upper
      rw [table]
      refine ⟨by unfold sizeofHuft; omega, by omega, ?_, moved.aligned, moved.unbuilt, ?_, ?_⟩
      · rw [CodeTree.inner, Nat.add_mul, Nat.add_mul, Nat.one_mul]
        omega
      · intro q before
        exact moved.kept q (by dsimp only; omega) (by dsimp only; omega)
      · have different : ([] : List Bool).length ≠ plan.l := by
          rw [List.length_nil]
          omega
        rw [Holds, if_neg different]
        exact ⟨heldZero.mono (Nat.le_add_right _ _) (Nat.le_refl _),
          heldOne.mono (Nat.le_add_right _ _) (Nat.le_refl _)⟩

end Whole

/-! ## What a set of tables decodes -/

/-- What the entry for a symbol says, as operation and number. -/
def symbolOperation (s : Nat) (d e : List Nat) (symbol : Nat) : Nat × Nat :=
  if symbol < s then (if symbol < 256 then 16 else 15, symbol % 2 ^ 16)
  else (e.getD (symbol - s) 0 % 256, d.getD (symbol - s) 0 % 2 ^ 16)

/-- The word of a symbol in the canonical code with some lengths. -/
def wordOf (b : List Nat) (symbol : Nat) : List Bool :=
  canonicalWord (fun k => b.count k) (b.getD symbol 0) ((b.take symbol).count (b.getD symbol 0))

/-- The tables that were built, between two addresses, hold the canonical code with the
lengths `b`. -/
def Decodes (tables : Nat → Nat → Huft) (low high : Nat) (b : List Nat) (s : Nat) (d e : List Nat)
    (built : Built) : Prop :=
  ∃ (plan : Plan) (tree : CodeTree), plan.s = s ∧ plan.d = d ∧ plan.e = e ∧ plan.l = built.m ∧
    1 ≤ built.m ∧ built.m ≤ 9 ∧ low < built.t ∧ built.t < high ∧
    Holds plan tables low high built.t built.m [] 0 tree ∧
    ∀ symbol, b.getD symbol 0 ≠ 0 → ∃ place, place < plan.n ∧ plan.v place = symbol ∧
      tree.codes[place]? = some (wordOf b symbol)

/-- The most that the tables for a set of lengths take. -/
def buildBytes : Nat := 290 * ((2 ^ 10 + 1) * sizeofHuft)

section Values

variable {b : List Nat} {c : Nat → Nat}

/-- `c[]` as a function. -/
theorem counts_eq (bounded : ∀ k ∈ b, k ≤ bmax) :
    (fun k => (countLengths b).getD k 0) = fun k => b.count k := by
  funext k
  rcases Nat.lt_or_ge bmax k with beyond | inside
  · have length : (countLengths b).length = bmax + 1 := by
      have kept : ∀ (b c : List Nat),
          (b.foldl (fun c length => c.modify length (· + 1)) c).length = c.length := by
        intro b
        induction b with
        | nil => exact fun _ => rfl
        | cons length b ih => exact fun c => (ih _).trans (List.length_modify _ _ _)
      rw [countLengths, kept, List.length_replicate]
    have none : b.count k = 0 := by
      apply List.count_eq_zero.mpr
      intro member
      have bound := bounded k member
      omega
    rw [none, List.getD_eq_getElem?_getD, List.getElem?_eq_none (by omega)]
    rfl
  · exact countLengths_eq b inside

theorem startOffset_eq (c : Nat → Nat) (k : Nat) :
    startOffset c (k + 1) = (lengthsOf c k).length := by
  induction k with
  | zero => rfl
  | succ k ih => rw [startOffset, ih, lengthsOf, List.length_append, List.length_replicate]

theorem startOffset_add (c : Nat → Nat) {k k' : Nat} (positive : 1 ≤ k) (less : k < k') :
    startOffset c k + c k ≤ startOffset c k' := by
  obtain ⟨k, rfl⟩ := Nat.exists_eq_add_of_le' positive
  obtain ⟨more, rfl⟩ := Nat.exists_eq_add_of_lt less
  induction more with
  | zero => exact Nat.le_refl _
  | succ more ih =>
      rw [show k + 1 + (more + 1) + 1 = k + 1 + more + 2 by omega, startOffset]
      have before := ih (by omega)
      omega

theorem startOffsets_getD (c : Nat → Nat) {k : Nat} (bound : k ≤ bmax) :
    (startOffsets c).getD k 0 = startOffset c k := by
  rw [startOffsets, List.getD_eq_getElem?_getD, List.getElem?_map,
    List.getElem?_range (Nat.lt_succ_of_le bound)]
  rfl

/-- Each symbol stands in `v` where its word stands in the tree. -/
theorem sortValues_symbol (more : ∀ k, b.count k ≤ c k) (bounded : ∀ k ∈ b, k ≤ bmax)
    (v : Nat → Nat) {symbol : Nat} (used : b.getD symbol 0 ≠ 0) :
    sortValues b 0 (startOffsets c) v ((lengthsOf c (b.getD symbol 0 - 1)).length +
      (b.take symbol).count (b.getD symbol 0)) = symbol := by
  have inside : symbol < b.length := by
    by_contra outside
    rw [List.getD_eq_getElem?_getD, List.getElem?_eq_none (by omega)] at used
    exact used rfl
  have value : b.getD symbol 0 = b[symbol] := List.getD_eq_getElem b 0 inside
  have bound := bounded b[symbol] (List.getElem_mem inside)
  rw [value] at used ⊢
  have separate : Separate (fun k => (startOffsets c).getD k 0) b := by
    intro k k' positive less bound
    dsimp only
    rw [startOffsets_getD c (by omega), startOffsets_getD c bound]
    exact Nat.le_trans (Nat.add_le_add_left (more k) _) (startOffset_add c positive less)
  have placed := (sortValues_spec b 0 (startOffsets c) v bounded
    (by simp [startOffsets]) separate).placed symbol inside used
  rw [startOffsets_getD c bound, Nat.zero_add] at placed
  obtain ⟨k, length⟩ := Nat.exists_eq_succ_of_ne_zero used
  rw [length] at placed ⊢
  rw [Nat.succ_eq_add_one, startOffset_eq] at placed
  rw [Nat.succ_sub_one]
  exact placed

end Values

/-! ## The tables for lengths that fit -/

section Build

variable {b d e : List Nat} {s m g : Nat} {state : State}

/-- What the codes of length up to `g` leave of the longest ones. -/
def spare (b : List Nat) (g : Nat) : Nat :=
  2 ^ g - CodeTree.weight g (lengthsOf (fun k => b.count k) g)

/-- `c[]`, with the dummy codes. -/
def paddedCounts (b : List Nat) (g : Nat) : Nat → Nat :=
  Function.update (fun k => b.count k) g (b.count g + spare b g)

theorem le_paddedCounts (k : Nat) : b.count k ≤ paddedCounts b g k := by
  unfold paddedCounts
  by_cases same : k = g
  · rw [same, Function.update_self]
    exact Nat.le_add_right _ _
  · rw [Function.update_of_ne same]

/-- The word of a symbol stands in the tree where its value stands in `v`. -/
theorem codes_symbol {tree : CodeTree} (depths : tree.depths 0 = lengthsOf (paddedCounts b g) g)
    (bounded : ∀ k ∈ b, k ≤ g) {symbol : Nat} (used : b.getD symbol 0 ≠ 0) :
    (lengthsOf (paddedCounts b g) (b.getD symbol 0 - 1)).length +
        (b.take symbol).count (b.getD symbol 0) < b.length ∧
      tree.codes[(lengthsOf (paddedCounts b g) (b.getD symbol 0 - 1)).length +
        (b.take symbol).count (b.getD symbol 0)]? = some (wordOf b symbol) := by
  have inside : symbol < b.length := by
    by_contra outside
    rw [List.getD_eq_getElem?_getD, List.getElem?_eq_none (by omega)] at used
    exact used rfl
  have value : b.getD symbol 0 = b[symbol] := List.getD_eq_getElem b 0 inside
  have member : b.getD symbol 0 ∈ b := by
    rw [value]
    exact List.getElem_mem inside
  have bound := bounded _ member
  have rank : (b.take symbol).count (b.getD symbol 0) < b.count (b.getD symbol 0) := by
    have parts : b.count (b.getD symbol 0) = (b.take symbol).count (b.getD symbol 0) +
        (b.drop symbol).count (b.getD symbol 0) := by
      rw [← List.count_append, List.take_append_drop]
    rw [parts, List.drop_eq_getElem_cons inside, ← value, List.count_cons_self]
    omega
  have word : wordOf b symbol = canonicalWord (paddedCounts b g) (b.getD symbol 0)
      ((b.take symbol).count (b.getD symbol 0)) := by
    have first : firstCode (fun k => b.count k) (b.getD symbol 0) =
        firstCode (paddedCounts b g) (b.getD symbol 0) := by
      apply firstCode_congr
      intro k _ less
      rw [paddedCounts, Function.update_of_ne (by omega)]
    rw [wordOf, canonicalWord, canonicalWord, first]
  rw [word]
  refine ⟨?_, codes_canonical depths (by omega) bound (lt_of_lt_of_le rank (le_paddedCounts _))⟩
  have same : lengthsOf (paddedCounts b g) (b.getD symbol 0 - 1) =
      lengthsOf (fun k => b.count k) (b.getD symbol 0 - 1) :=
    lengthsOf_congr fun k _ less => Function.update_of_ne (by omega) _ _
  have upTo : (lengthsOf (fun k => b.count k) (b.getD symbol 0)).length ≤ b.length :=
    Nat.le_trans (lengthsOf_isPrefix _ bound).length_le (length_lengthsOf_le bounded)
  obtain ⟨k, length⟩ : ∃ k, b.getD symbol 0 = k + 1 := ⟨b.getD symbol 0 - 1, by omega⟩
  rw [length] at rank upTo same ⊢
  rw [lengthsOf, List.length_append, List.length_replicate] at upTo
  rw [Nat.add_sub_cancel] at same ⊢
  rw [same]
  omega

/-- There is a leaf for each length that is not 0, and one for each dummy code. -/
theorem size_padded {tree : CodeTree} (depths : tree.depths 0 = lengthsOf (paddedCounts b g) g)
    (positive : 1 ≤ g) (bounded : ∀ k ∈ b, k ≤ g) : tree.size ≤ b.length + spare b g := by
  have padded : lengthsOf (paddedCounts b g) g =
      lengthsOf (fun k => b.count k) g ++ List.replicate (spare b g) g :=
    lengthsOf_padded (c := fun k => b.count k) positive (spare b g)
  have length := length_lengthsOf_le bounded
  rw [← tree.length_depths 0, depths, padded, List.length_append, List.length_replicate]
  omega

section Least

variable {j : Nat} {tree : CodeTree}

theorem paddedCounts_before (short : j ≤ g) (none : ∀ k, 1 ≤ k → k < j → b.count k = 0) {k : Nat}
    (some : 1 ≤ k) (less : k < j) : paddedCounts b g k = 0 := by
  rw [paddedCounts, Function.update_of_ne (by omega)]
  exact none k some less

/-- From the least length on there are all codes. -/
theorem lengthsFrom_least (low : 1 ≤ j) (short : j ≤ g)
    (none : ∀ k, 1 ≤ k → k < j → b.count k = 0) :
    lengthsFrom (paddedCounts b g) (g + 1 - j) j = lengthsOf (paddedCounts b g) g := by
  have behind := lengthsFrom_lengthsOf (paddedCounts b g) (g + 1 - j) (j - 1)
  have empty : lengthsOf (paddedCounts b g) (j - 1) = [] := by
    apply lengthsOf_eq_nil
    intro k some less
    exact paddedCounts_before short none some (by omega)
  have next : j - 1 + 1 = j := by omega
  have total : j - 1 + (g + 1 - j) = g := by omega
  rwa [empty, List.nil_append, next, total] at behind

/-- The first code is no longer than the least length. -/
theorem first_le_least (depths : tree.depths 0 = lengthsOf (paddedCounts b g) g) (low : 1 ≤ j)
    (short : j ≤ g) (least : b.count j ≠ 0) {first : Nat} {rest : List Nat}
    (split : tree.depths 0 = first :: rest) : first ≤ j := by
  have member : j ∈ tree.depths 0 := by
    rw [depths]
    apply List.count_pos_iff.mp
    rw [count_lengthsOf _ low short]
    exact Nat.lt_of_lt_of_le (Nat.pos_of_ne_zero least) (le_paddedCounts j)
  have sorted := sorted_lengthsOf (paddedCounts b g) g
  rw [← depths, split] at sorted
  rw [split] at member
  rcases List.mem_cons.mp member with rfl | later
  · exact Nat.le_refl _
  · exact List.rel_of_pairwise_cons sorted later

/-- There are too few codes for a long least length. -/
theorem least_le_eight (depths : tree.depths 0 = lengthsOf (paddedCounts b g) g) (short : j ≤ g)
    (none : ∀ k, 1 ≤ k → k < j → b.count k = 0) (few : tree.size ≤ 290) : j ≤ 8 := by
  by_contra long
  have clear : ∀ above < j, tree.leavesAt above = 0 := by
    intro above less
    rw [← tree.count_depths 0, Nat.zero_add, depths]
    apply List.count_eq_zero.mpr
    intro member
    have bounds := mem_lengthsOf _ member
    have some := List.count_pos_iff.mpr member
    rw [count_lengthsOf _ bounds.1 bounds.2, paddedCounts_before short none bounds.1 less] at some
    exact Nat.lt_irrefl 0 some
  have full := tree.level_full clear
  have enough := tree.level_le_size j
  have many := Nat.pow_le_pow_right (by omega : 0 < 2) (by omega : 9 ≤ j)
  omega

/-- The whole tree is what the tables are made for. -/
theorem shape_padded {plan : Plan} (depths : tree.depths 0 = lengthsOf (paddedCounts b g) g)
    (height : tree.height = g) (counts : plan.c = paddedCounts b g) (deepest : plan.g = g)
    (near : plan.g < 2 * plan.l ∨ tree.size < 2 ^ plan.l) : Shape plan [] [] 0 tree := by
  refine ⟨?_, ?_, ?_, near⟩
  · rw [List.nil_append, List.append_nil, depths]
    exact sorted_lengthsOf _ g
  · intro k some below
    rw [deepest] at below
    rw [List.nil_append, List.append_nil, depths, count_lengthsOf _ some below, counts]
  · rw [height, deepest, Nat.zero_add]

end Least

/-- Where lengths fit, the tables hold their code. -/
theorem huftBuild_holds (found : g ∈ b) (positive : 1 ≤ g) (bounded : ∀ k ∈ b, k ≤ g)
    (bound : g ≤ bmax) (bits : 1 ≤ m ∧ m ≤ 9)
    (fits : CodeTree.weight g (lengthsOf (fun k => b.count k) g) ≤ 2 ^ g)
    (few : b.length + spare b g ≤ 290) (near : g < 2 * m ∨ b.length + spare b g < 2 ^ m)
    (aligned : state.freeMemPtr % 4 = 0) (memory : 0 < state.freeMemPtr)
    (room : state.freeMemPtr + buildBytes < state.freeMemEndPtr) :
    (huftBuild b s d e m).Ensures state (fun _ => False) fun built after =>
      built.result = (if spare b g ≠ 0 ∧ g ≠ 1 then 1 else 0) ∧
      (∀ k ∈ b, k ≤ m → k ≤ built.m) ∧
      Decodes after.tables state.freeMemPtr after.freeMemPtr b s d e built ∧
      after.freeMemPtr ≤ state.freeMemPtr + buildBytes ∧ after.freeMemPtr % 4 = 0 ∧
      after.unbuilt = state.unbuilt ∧
      ∀ q, q < state.freeMemPtr → after.tables q = state.tables q := by
  have boundedMax : ∀ k ∈ b, k ≤ bmax := fun k member => Nat.le_trans (bounded k member) bound
  have deepest : b.count g ≠ 0 := Nat.ne_of_gt (List.count_pos_iff.mpr found)
  have notAll : ¬ b.count 0 = b.length := by
    rw [List.count_eq_length]
    intro all
    have zero := all g found
    omega
  obtain ⟨low, short, least, none⟩ := minLength_spec (c := fun k => b.count k) positive
    (by omega : g < 1 + bmax) deepest
  obtain ⟨reach, -, last, -⟩ := maxLength_spec (c := fun k => b.count k) positive bound deepest
  have greatest : maxLength (fun k => b.count k) bmax = g := by
    apply Nat.le_antisymm _ reach
    exact bounded _ (List.count_pos_iff.mp (Nat.pos_of_ne_zero last))
  have left := leftOver_weight (c := fun k => b.count k) low short none
  rw [if_pos fits] at left
  have counted : ∀ k, (countLengths b).getD k 0 = b.count k := fun k =>
    congrFun (counts_eq boundedMax) k
  unfold huftBuild
  simp only [counted, greatest]
  rw [ensures_bind, ensures_look, ensures_bind, ensures_alter, if_neg notAll, left]
  dsimp only
  generalize minLength (fun k => b.count k) bmax 1 = j at low short least none left ⊢
  obtain ⟨tree, depths, height⟩ := exists_padded (c := fun k => b.count k) positive deepest fits
  have count : Function.update (fun k => b.count k) g (b.count g +
      (((2 ^ g - CodeTree.weight g (lengthsOf (fun k => b.count k) g) : Nat) : Int)).toNat) =
      paddedCounts b g := rfl
  rw [count]
  have depths : tree.depths 0 = lengthsOf (paddedCounts b g) g := depths
  have codes : lengthsFrom (paddedCounts b g) (g + 1 - j) j = tree.depths 0 :=
    (lengthsFrom_least low short none).trans depths.symm
  have size := size_padded depths positive bounded
  obtain ⟨first, rest, split⟩ : ∃ first rest, tree.depths 0 = first :: rest := by
    apply List.exists_cons_of_length_pos
    rw [CodeTree.length_depths]
    exact tree.size_pos
  have shortest : first ≤ j := first_le_least depths low short least split
  have firstBound : first ≤ g := by
    have member : first ∈ tree.depths 0 := by
      rw [split]
      exact List.mem_cons_self
    have deep := tree.mem_depths_le member
    omega
  have few' : j ≤ 8 := least_le_eight depths short none (by omega)
  generalize hl : min (max m j) g = l
  have tables : (2 ^ (l + 1) + 1) * sizeofHuft ≤ (2 ^ 10 + 1) * sizeofHuft := by
    apply Nat.mul_le_mul_right
    apply Nat.succ_le_succ
    exact Nat.pow_le_pow_right (by omega) (by omega)
  have total : tree.size * ((2 ^ (l + 1) + 1) * sizeofHuft) ≤ buildBytes :=
    Nat.mul_le_mul (by omega) tables
  generalize found' : state.stack state.builds = stack
  generalize hplan : ({ c := paddedCounts b g, n := b.length, s, d, e, g, l
                        v := sortValues b 0 (startOffsets (paddedCounts b g)) stack.v } : Plan) =
    plan
  have bitsOf : plan.l = l := by rw [← hplan]
  have nearPlan : plan.g < 2 * plan.l ∨ tree.size < 2 ^ plan.l := by
    rw [bitsOf, ← hplan]
    dsimp only
    rcases Nat.le_total (max m j) g with wide | deep
    · rcases near with flat | many
      · omega
      · right
        have power := Nat.pow_le_pow_right (by omega : 0 < 2) (by omega : m ≤ l)
        omega
    · omega
  have shape : Shape plan [] [] 0 tree :=
    shape_padded depths height (by rw [← hplan]) (by rw [← hplan]) nearPlan
  have roomy : Room plan tree.size { state with builds := state.builds + 1 } := by
    refine ⟨aligned, memory, ?_⟩
    unfold tableBytes
    rw [bitsOf]
    dsimp only
    omega
  have planCodes : lengthsFrom plan.c (g + 1 - j) j = tree.depths 0 := by
    rw [← codes, ← hplan]
  rw [eachLength_eq, planCodes]
  apply (placeAll_holds (r := stack.r) shape (by omega) (by omega) split (by omega) roomy).andThen
  rintro builder after ⟨above, inside, upper, aligned', unbuilt, kept, holds⟩
  have upper : after.freeMemPtr ≤ state.freeMemPtr + tree.size * tableBytes plan := upper
  unfold tableBytes at upper
  rw [bitsOf] at upper holds
  have verdict : (((2 ^ g - CodeTree.weight g (lengthsOf (fun k => b.count k) g) : Nat) : Int) ≠ 0 ∧
      g ≠ 1) = (spare b g ≠ 0 ∧ g ≠ 1) := by
    unfold spare
    rw [Ne, Int.natCast_eq_zero]
  rw [ensures_pure]
  refine ⟨by simp only [verdict], ?_, ?_, by omega, aligned', unbuilt, kept⟩
  · intro k member short
    have deep := bounded k member
    dsimp only
    omega
  refine ⟨plan, tree, ?_, ?_, ?_, bitsOf, ?_, ?_, above, inside, holds, ?_⟩
  · rw [← hplan]
  · rw [← hplan]
  · rw [← hplan]
  · dsimp only
    omega
  · dsimp only
    omega
  · intro symbol used
    obtain ⟨place, word⟩ := codes_symbol depths bounded used
    refine ⟨_, ?_, ?_, word⟩
    · rw [← hplan]
      exact place
    · rw [← hplan]
      exact sortValues_symbol le_paddedCounts boundedMax stack.v used

/-! ## The verdict on a set of lengths -/

/-- There is a greatest length, and it is the one that is found. -/
theorem exists_greatest (bounded : ∀ k ∈ b, k ≤ bmax) (some : ∃ k ∈ b, k ≠ 0) :
    ∃ g, maxLength (fun k => b.count k) bmax = g ∧ g ∈ b ∧ 1 ≤ g ∧ g ≤ bmax ∧ ∀ k ∈ b, k ≤ g := by
  obtain ⟨k, member, nonzero⟩ := some
  obtain ⟨reach, bound, last, behind⟩ := maxLength_spec (c := fun k => b.count k)
    (Nat.pos_of_ne_zero nonzero) (bounded k member) (Nat.ne_of_gt (List.count_pos_iff.mpr member))
  refine ⟨_, rfl, List.count_pos_iff.mp (Nat.pos_of_ne_zero last), ?_, bound, ?_⟩
  · exact Nat.le_trans (Nat.pos_of_ne_zero nonzero) reach
  · intro k' member'
    by_contra beyond
    have none := behind k' (by omega) (bounded k' member')
    exact List.count_eq_zero.mp none member'

/-- Whether codes fit, and whether they fill, is a matter of their share alone. -/
theorem share_compare (bounded : ∀ k ∈ b, k ≤ g) (bound : g ≤ bmax) :
    (CodeTree.weight g (lengthsOf (fun k => b.count k) g) ≤ 2 ^ g ↔ shareOf b ≤ 2 ^ bmax) ∧
      (spare b g = 0 ↔ 2 ^ bmax ≤ shareOf b) := by
  have whole : 2 ^ bmax = 2 ^ g * 2 ^ (bmax - g) := by
    rw [← pow_add, Nat.add_sub_cancel' bound]
  have positive := Nat.two_pow_pos (bmax - g)
  rw [shareOf_eq bounded bound, whole, Nat.mul_le_mul_right_iff positive,
    Nat.mul_le_mul_right_iff positive, spare, Nat.sub_eq_zero_iff_le]
  exact ⟨Iff.rfl, Iff.rfl⟩

/-- What `huft_build` returns says whether the codes fit and whether they fill. It is called
for one to `N_MAX` lengths. -/
theorem huftBuild_result (b d e : List Nat) (s m : Nat) (state : State)
    (bounded : ∀ k ∈ b, k ≤ bmax) (_positive : 1 ≤ b.length) (_few : b.length ≤ nMax) :
    (huftBuild b s d e m).Ensures state (fun _ => True) fun built _ =>
      built.result =
        if ∀ k ∈ b, k = 0 then 0
        else if 2 ^ bmax < shareOf b then 2
        else if shareOf b < 2 ^ bmax ∧ ∃ k ∈ b, 1 < k then 1
        else 0 := by
  have counted : ∀ k, (countLengths b).getD k 0 = b.count k := fun k =>
    congrFun (counts_eq bounded) k
  unfold huftBuild
  simp only [counted]
  rw [ensures_bind, ensures_look, ensures_bind, ensures_alter]
  have unused : b.count 0 = b.length ↔ ∀ k ∈ b, k = 0 := by
    rw [List.count_eq_length]
    constructor
    · intro all k member
      exact (all k member).symm
    · intro all k member
      exact (all k member).symm
  by_cases none : ∀ k ∈ b, k = 0
  · rw [if_pos (unused.mpr none), if_pos none]
    exact rfl
  · rw [if_neg (fun all => none (unused.mp all)), if_neg none]
    push Not at none
    obtain ⟨g, greatest, found, positive, bound, bounds⟩ := exists_greatest bounded none
    obtain ⟨low, short, least, before⟩ := minLength_spec (c := fun k => b.count k) positive
      (by omega : g < 1 + bmax) (Nat.ne_of_gt (List.count_pos_iff.mpr found))
    have left := leftOver_weight (c := fun k => b.count k) low short before
    obtain ⟨fits, fills⟩ := share_compare bounds bound
    rw [greatest, left]
    by_cases oversubscribed : 2 ^ bmax < shareOf b
    · rw [if_neg (fun share => by omega), if_pos oversubscribed]
      exact rfl
    · rw [if_pos (fits.mpr (by omega)), if_neg oversubscribed]
      dsimp only
      apply (ensures_true (eachLength _ _ _ _) _).andThen
      intro builder after _
      have deep : g ≠ 1 ↔ ∃ k ∈ b, 1 < k := by
        constructor
        · intro other
          exact ⟨g, found, by omega⟩
        · rintro ⟨k, member, more⟩ rfl
          have bound := bounds k member
          omega
      have incomplete : ((2 ^ g - CodeTree.weight g (lengthsOf (fun k => b.count k) g) : Nat) :
          Int) ≠ 0 ↔ shareOf b < 2 ^ bmax := by
        rw [Ne, Int.natCast_eq_zero]
        exact (not_congr fills).trans Nat.not_le
      rw [ensures_pure]
      simp only [incomplete, deep]

theorem huftBuild_result_oversubscribed :
    (huftBuild [1, 1, 1] 3 [] [] 7).Ensures (handedOver (fun _ => 0) 0 fun _ => 0)
      (fun _ => True) fun built _ => built.result = 2 := by
  apply (huftBuild_result [1, 1, 1] [] [] 3 7 _ (by decide) (by decide) (by decide)).mono
    (fun _ cut => cut)
  rintro built _ result
  rw [result]
  decide

/-- Lengths whose codes fill the code space, or a single code of one bit. -/
def Usable (b : List Nat) : Prop := shareOf b = 2 ^ bmax ∨ b.count 1 = 1 ∧ ∀ k ∈ b, k ≤ 1

/-- For usable lengths there are tables. -/
theorem huftBuild_usable (usable : Usable b) (bounded : ∀ k ∈ b, k ≤ bmax)
    (few : b.length ≤ nMax) (bits : 1 ≤ m ∧ m ≤ 9)
    (near : (∀ k ∈ b, k < 2 * m) ∨ b.length < 2 ^ m) (aligned : state.freeMemPtr % 4 = 0)
    (memory : 0 < state.freeMemPtr)
    (room : state.freeMemPtr + buildBytes < state.freeMemEndPtr) :
    (huftBuild b s d e m).Ensures state (fun _ => False) fun built after =>
      built.result = 0 ∧ (∀ k ∈ b, k ≤ m → k ≤ built.m) ∧
      Decodes after.tables state.freeMemPtr after.freeMemPtr b s d e built ∧
      after.freeMemPtr ≤ state.freeMemPtr + buildBytes ∧ after.freeMemPtr % 4 = 0 ∧
      after.unbuilt = state.unbuilt ∧
      ∀ q, q < state.freeMemPtr → after.tables q = state.tables q := by
  have some : ∃ k ∈ b, k ≠ 0 := by
    rcases usable with fills | ⟨one, -⟩
    · by_contra none
      push Not at none
      have empty : b.filter (· ≠ 0) = [] := List.filter_eq_nil_iff.mpr (by simpa using none)
      rw [shareOf, empty, CodeTree.weight_nil] at fills
      exact absurd fills (Nat.ne_of_lt (Nat.two_pow_pos bmax))
    · exact ⟨1, List.count_pos_iff.mp (by omega), Nat.one_ne_zero⟩
  obtain ⟨g, -, found, positive, bound, bounds⟩ := exists_greatest bounded some
  have verdict : CodeTree.weight g (lengthsOf (fun k => b.count k) g) ≤ 2 ^ g ∧
      (spare b g = 0 ∨ g = 1 ∧ spare b g = 1) := by
    rcases usable with fills | ⟨one, flat⟩
    · obtain ⟨fit, fill⟩ := share_compare bounds bound
      exact ⟨fit.mpr (Nat.le_of_eq fills), .inl (fill.mpr (Nat.le_of_eq fills.symm))⟩
    · obtain rfl : g = 1 := Nat.le_antisymm (flat g found) positive
      have weight : CodeTree.weight 1 (lengthsOf (fun k => b.count k) 1) = 1 := by
        simp [lengthsOf, one]
      rw [spare, weight]
      exact ⟨by decide, .inr ⟨rfl, rfl⟩⟩
  obtain ⟨fits, left⟩ := verdict
  have few' : b.length + spare b g ≤ 290 := by
    unfold nMax at few
    omega
  have near' : g < 2 * m ∨ b.length + spare b g < 2 ^ m := by
    rcases near with flat | many
    · exact .inl (flat g found)
    · rcases left with zero | ⟨one, -⟩
      · rw [zero]
        exact .inr many
      · omega
  apply (huftBuild_holds found positive bounds bound bits fits few' near' aligned memory room).mono
    (fun _ none => none)
  rintro built after ⟨result, rest⟩
  refine ⟨?_, rest⟩
  rw [result, if_neg]
  rintro ⟨nonzero, deep⟩
  rcases left with zero | ⟨one, -⟩
  · exact nonzero zero
  · exact deep one

end Build

end Cromwell.Gzip
