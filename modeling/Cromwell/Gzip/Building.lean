import Cromwell.Gzip.Entries

/-!
# The loop over the codes

The codes are taken in the order of the leaves of a tree. What a pass does is described
for the codes below one node: they begin at the node's own code, they fill the places of
the table that begin with it, and behind them the loop stands at the next code with the
tables it had before. The three kinds of inner nodes, the root, those inside a table and
those at the end of one, have the step from two children in common.
-/

namespace Cromwell.Gzip

open Cromwell.Std Program

/-! ## Codes one after another -/

/-- The passes for codes of some lengths, each with the number of codes that follow. -/
def placeAll (plan : Plan) : List (Nat × Nat) → Builder → Program State Builder
  | [], builder => return builder
  | (k, a) :: rest, builder => do
    let builder ← placeCode plan k a builder
    placeAll plan rest builder

/-- Codes of some lengths, with the number of codes of the same length that follow. -/
def schedule : (lengths behind : List Nat) → List (Nat × Nat)
  | [], _ => []
  | k :: rest, behind => (k, (rest ++ behind).count k) :: schedule rest behind

section Order

variable {plan : Plan} {builder : Builder}

theorem placeAll_append (first second : List (Nat × Nat)) :
    placeAll plan (first ++ second) builder =
      placeAll plan first builder >>= fun builder => placeAll plan second builder := by
  induction first generalizing builder with
  | nil => rfl
  | cons code first ih =>
      rw [List.cons_append, placeAll, placeAll, bind_assoc]
      congr 1
      funext builder
      exact ih

theorem schedule_append (first second behind : List Nat) :
    schedule (first ++ second) behind =
      schedule first (second ++ behind) ++ schedule second behind := by
  induction first with
  | nil => rfl
  | cons k first ih => rw [List.cons_append, schedule, schedule, ih, List.cons_append,
      List.append_assoc]

/-- Where a table is missing for the first code, it is made first. -/
theorem placeAll_open (some : 1 ≤ plan.l) {k a : Nat} (rest : List (Nat × Nat))
    (missing : k > plan.l * builder.levels.length) :
    placeAll plan ((k, a) :: rest) builder =
      openTable plan k a builder >>= fun builder => placeAll plan ((k, a) :: rest) builder := by
  rw [placeAll, placeCode_open some missing, bind_assoc]
  rfl

theorem placeAll_replicate {k : Nat} {behind : List Nat} (others : behind.count k = 0) (a : Nat)
    (builder : Builder) :
    placeAll plan (schedule (List.replicate a k) behind) builder = eachCode plan k a builder := by
  induction a generalizing builder with
  | zero => rfl
  | succ a ih =>
      have left : (List.replicate a k ++ behind).count k = a := by
        rw [List.count_append, List.count_replicate_self, others, Nat.add_zero]
      rw [List.replicate_succ, schedule, placeAll, eachCode, left]
      congr 1
      funext builder
      exact ih builder

/-- The lengths from `k` on, for some lengths. -/
def lengthsFrom (c : Nat → Nat) : (passes k : Nat) → List Nat
  | 0, _ => []
  | passes + 1, k => List.replicate (c k) k ++ lengthsFrom c passes (k + 1)

theorem le_of_mem_lengthsFrom {c : Nat → Nat} {passes k k' : Nat}
    (member : k' ∈ lengthsFrom c passes k) : k ≤ k' := by
  induction passes generalizing k with
  | zero => exact absurd member List.not_mem_nil
  | succ passes ih =>
      rcases List.mem_append.mp member with first | later
      · exact Nat.le_of_eq (List.eq_of_mem_replicate first).symm
      · have deeper := ih later
        omega

theorem lengthsFrom_lengthsOf (c : Nat → Nat) (passes k : Nat) :
    lengthsOf c k ++ lengthsFrom c passes (k + 1) = lengthsOf c (k + passes) := by
  induction passes generalizing k with
  | zero => exact List.append_nil _
  | succ passes ih =>
      have total : k + (passes + 1) = k + 1 + passes := by omega
      rw [total, ← ih, lengthsOf, lengthsFrom, List.append_assoc]

/-- The loops of `huft_build` take the codes in the order of their lengths. -/
theorem eachLength_eq (passes k : Nat) (builder : Builder) :
    eachLength plan passes k builder =
      placeAll plan (schedule (lengthsFrom plan.c passes k) []) builder := by
  induction passes generalizing k builder with
  | zero => rfl
  | succ passes ih =>
      have others : (lengthsFrom plan.c passes (k + 1) ++ []).count k = 0 := by
        apply List.count_eq_zero.mpr
        intro member
        rw [List.append_nil] at member
        have longer := le_of_mem_lengthsFrom member
        omega
      rw [eachLength, lengthsFrom, schedule_append, placeAll_append, placeAll_replicate others]
      congr 1
      funext builder
      exact ih (k + 1) builder

end Order

/-! ## The codes below a node -/

/-- The codes below a node stand among the others. -/
structure Shape (plan : Plan) (before behind : List Nat) (depth : Nat) (tree : CodeTree) :
    Prop where
  sorted : (before ++ (tree.depths depth ++ behind)).Pairwise (· ≤ ·)
  counted : ∀ k, 1 ≤ k → k ≤ plan.g →
    plan.c k = (before ++ (tree.depths depth ++ behind)).count k
  deep : depth + tree.height ≤ plan.g
  near : plan.g < 2 * plan.l ∨ tree.size < 2 ^ plan.l

section Shape

variable {plan : Plan} {before behind : List Nat} {depth : Nat} {tree zero one : CodeTree}

theorem Shape.left (shape : Shape plan before behind depth (.node zero one)) :
    Shape plan before (one.depths (depth + 1) ++ behind) (depth + 1) zero := by
  obtain ⟨sorted, counted, deep, near⟩ := shape
  rw [CodeTree.depths, List.append_assoc] at sorted
  rw [CodeTree.height] at deep
  rw [CodeTree.size] at near
  refine ⟨sorted, ?_, by omega, by omega⟩
  intro k positive bound
  rw [counted k positive bound, CodeTree.depths, List.append_assoc]

theorem Shape.right (shape : Shape plan before behind depth (.node zero one)) :
    Shape plan (before ++ zero.depths (depth + 1)) behind (depth + 1) one := by
  obtain ⟨sorted, counted, deep, near⟩ := shape
  rw [CodeTree.depths, List.append_assoc, ← List.append_assoc] at sorted
  rw [CodeTree.height] at deep
  rw [CodeTree.size] at near
  refine ⟨sorted, ?_, by omega, by omega⟩
  intro k positive bound
  rw [counted k positive bound, CodeTree.depths, List.append_assoc, ← List.append_assoc]

/-- The codes under a node are in order. -/
theorem Shape.ordered (shape : Shape plan before behind depth (.node zero one)) :
    ∀ k ∈ zero.depths (depth + 1), ∀ k' ∈ one.depths (depth + 1), k ≤ k' := by
  have sorted := (List.pairwise_append.mp shape.sorted).2.1
  have own := (List.pairwise_append.mp sorted).1
  exact (List.pairwise_append.mp own).2.2

/-- The first code below a node is its shortest one, and its table can be counted out. -/
theorem Shape.first (shape : Shape plan before behind depth tree) {k : Nat} {rest : List Nat}
    (split : tree.depths depth = k :: rest) :
    depth ≤ k ∧ k ≤ depth + tree.height ∧
      (∀ level, level < k - depth → tree.leavesAt level = 0) ∧
      (k - depth < tree.height → (rest ++ behind).count k + 1 = tree.leavesAt (k - depth)) ∧
      (∀ level, k - depth < level → level < tree.height →
        plan.c (depth + level) = tree.leavesAt level) ∧
      tree.leavesAt (k - depth) ≤ (rest ++ behind).count k + 1 := by
  have member : k ∈ tree.depths depth := by
    rw [split]
    exact List.mem_cons_self
  have lower := tree.le_of_mem_depths member
  have upper := tree.mem_depths_le member
  obtain ⟨-, rests, beforeLess⟩ := List.pairwise_append.mp shape.sorted
  obtain ⟨own, -, behindMore⟩ := List.pairwise_append.mp rests
  have shortest : ∀ k' ∈ tree.depths depth, k ≤ k' := by
    intro k' inside
    rw [split] at inside own
    rcases List.mem_cons.mp inside with rfl | later
    · exact Nat.le_refl _
    · exact List.rel_of_pairwise_cons own later
  have behindDeep : ∀ k' ∈ behind, depth + tree.height ≤ k' :=
    behindMore _ (tree.height_mem depth)
  have here : depth + (k - depth) = k := by omega
  have leaves : (rest ++ behind).count k + 1 =
      tree.leavesAt (k - depth) + behind.count k := by
    rw [← tree.count_depths depth, here, split, List.count_append, List.count_cons_self]
    omega
  have none : ∀ k', k' < depth + tree.height → behind.count k' = 0 := by
    intro k' less
    apply List.count_eq_zero.mpr
    intro inside
    have deep := behindDeep k' inside
    omega
  refine ⟨lower, upper, ?_, ?_, ?_, by omega⟩
  · intro level less
    rw [← tree.count_depths depth]
    apply List.count_eq_zero.mpr
    intro inside
    have bound := shortest _ inside
    omega
  · intro inner
    rw [leaves, none k (by omega), Nat.add_zero]
  · intro level above inner
    have deep := shape.deep
    have short : before.count (depth + level) = 0 := by
      apply List.count_eq_zero.mpr
      intro inside
      have bound := beforeLess _ inside k (List.mem_append_left _ member)
      omega
    rw [shape.counted _ (by omega) (by omega), List.count_append, List.count_append, short,
      tree.count_depths depth, none _ (by omega), Nat.zero_add, Nat.add_zero]

/-- A table for a node at its start is as deep as it may be, and no larger. -/
theorem Shape.tableBits (shape : Shape plan before behind depth tree) {k : Nat} {rest : List Nat}
    (split : tree.depths depth = k :: rest) :
    min plan.l tree.height ≤ tableBits plan depth k ((rest ++ behind).count k) ∧
      (plan.l ≤ depth → tableBits plan depth k ((rest ++ behind).count k) ≤ plan.l) := by
  obtain ⟨lower, upper, none, here, counted, last⟩ := shape.first split
  have deep := shape.deep
  refine ⟨tableBits_deep lower deep none here counted, fun behindRoot => ?_⟩
  have near : k - depth < plan.l := by
    rcases shape.near with flat | few
    · omega
    · obtain ⟨k', member, short⟩ := tree.exists_near depth few
      have own := (List.pairwise_append.mp (List.pairwise_append.mp shape.sorted).2.1).1
      rw [split] at member own
      rcases List.mem_cons.mp member with rfl | later
      · omega
      · have bound := List.rel_of_pairwise_cons own later
        omega
  apply tableBits_le near lower (by omega)
  intro deepest
  have full := tree.level_full none
  have bottom : tree.height ≤ k - depth → tree.nodesAt (k - depth) = 0 := tree.nodesAt_eq_zero
  omega

end Shape

/-! ## Before and after -/

/-- The part of a code that the table of the last level decodes. -/
def partOf (plan : Plan) (below : List Level) (code : List Bool) : List Bool :=
  code.drop (plan.l * below.length)

/-- The loop stands at the first code below a node. The node is in the table of the last
level, or at its end, and the table is in use unless the codes do not fit. -/
structure Begun (plan : Plan) (tree : CodeTree) (code : List Bool) (m bits : Nat) (level : Level)
    (below : List Level) (builder : Builder) (s : State) : Prop where
  i : builder.i = bitsValue code
  p : builder.p = min m plan.n
  levels : builder.levels = level :: below
  frames : Frames plan.l code (level :: below)
  lower : plan.l * below.length ≤ code.length
  upper : code.length ≤ plan.l * (below.length + 1)
  old : level.u < s.freeMemPtr
  current : (builder.q = level.u ∧ 2 ^ bits ≤ builder.z) ∨
    ∀ k ∈ tree.depths code.length, plan.l * (below.length + 1) < k
  reach : min plan.l ((partOf plan below code).length + tree.height) ≤ bits
  bound : bits ≤ plan.l

/-- The loop has gone on to the first code behind a node and has made at most `count` tables. -/
structure Moved (plan : Plan) (tree : CodeTree) (code : List Bool) (m count : Nat) (level : Level)
    (below : List Level) (builder : Builder) (s : State) (builder' : Builder) (s' : State) :
    Prop where
  i : builder'.i = increment code.length (bitsValue code)
  p : builder'.p = min (m + tree.size) plan.n
  levels : builder'.levels =
    backUp plan.l (increment code.length (bitsValue code)) (level :: below)
  t : builder'.t = builder.t
  current : (∀ k ∈ tree.depths code.length, k ≤ plan.l * (below.length + 1)) →
    builder'.q = builder.q ∧ builder'.z = builder.z
  lower : s.freeMemPtr ≤ s'.freeMemPtr
  upper : s'.freeMemPtr ≤ s.freeMemPtr + count * tableBytes plan
  aligned : s'.freeMemPtr % 4 = 0
  unbuilt : s'.unbuilt = s.unbuilt
  kept : ∀ q, q < s.freeMemPtr → q ≠ level.u → s'.tables q = s.tables q
  here : ∀ index, index % 2 ^ (partOf plan below code).length ≠ bitsValue (partOf plan below code) →
    s'.tables level.u index = s.tables level.u index

/-- The tables hold the codes below a node. -/
def Held (plan : Plan) (tree : CodeTree) (code : List Bool) (m bits : Nat) (level : Level)
    (below : List Level) (s s' : State) : Prop :=
  Holds plan s'.tables s.freeMemPtr s'.freeMemPtr level.u bits (partOf plan below code) m tree

section Passes

variable {plan : Plan} {before behind : List Nat} {zero one tree : CodeTree} {code : List Bool}
  {m bits count : Nat} {level : Level} {below : List Level} {builder : Builder} {s : State}

/-- A code of the table in use. -/
theorem placeCode_leaf (begun : Begun plan .leaf code m bits level below builder s)
    (aligned : s.freeMemPtr % 4 = 0) (a : Nat) :
    (placeCode plan code.length a builder).Ensures s (fun _ => False) fun builder' s' =>
      Moved plan .leaf code m 0 level below builder s builder' s' ∧
        Held plan .leaf code m bits level below s s' := by
  have present : code.length ≤ plan.l * builder.levels.length := by
    rw [begun.levels]
    exact begun.upper
  have inUse : builder.q = level.u ∧ 2 ^ bits ≤ builder.z := by
    rcases begun.current with inUse | deeper
    · exact inUse
    · have deep := deeper code.length (List.mem_singleton.mpr rfl)
      have upper := begun.upper
      omega
  have start : plan.l * (builder.levels.length - 1) = plan.l * below.length := by
    rw [begun.levels, List.length_cons, Nat.add_sub_cancel]
  have part : (partOf plan below code).length = code.length - plan.l * below.length :=
    List.length_drop
  have place : builder.i >>> (plan.l * below.length) = bitsValue (partOf plan below code) := by
    rw [Nat.shiftRight_eq_div_pow, begun.i, bitsValue_drop code begun.lower]
    rfl
  obtain ⟨entry, next⟩ : IsEntry plan m (partOf plan below code).length
      (setEntry plan (partOf plan below code).length builder).r ∧
      (setEntry plan (partOf plan below code).length builder).p = min (m + 1) plan.n :=
    setEntry_isEntry (partOf plan below code).length begun.p
  obtain ⟨sameI, sameLevels, sameQ, sameZ, sameT⟩ :=
    @setEntry_other plan builder (partOf plan below code).length
  unfold placeCode
  rw [makeTables_none present, pure_bind]
  simp only [ensures_bind, ensures_look, putTable, ensures_alter, ensures_pure]
  rw [start, ← part, sameI, sameLevels, sameQ, sameZ, sameT, place]
  have filled := fillEntries_code
    (setEntry plan (partOf plan below code).length builder).r builder.z
    (partOf plan below code) (s.tables builder.q)
  refine ⟨?_, ?_⟩
  · refine ⟨?_, next, ?_, rfl, fun _ => ⟨rfl, rfl⟩, Nat.le_refl _, Nat.le_add_right _ _,
      aligned, rfl, ?_, ?_⟩
    · rw [← begun.i]
    · rw [← begun.levels, ← begun.i]
    · intro q _ other
      exact Function.update_of_ne (by rwa [inUse.1]) _ _
    · intro index other
      dsimp only
      rw [← inUse.1, Function.update_self, filled, if_neg (fun begins => other begins.2)]
  · have reach := begun.reach
    rw [CodeTree.height, Nat.add_zero] at reach
    have upper := begun.upper
    rw [Nat.mul_add, Nat.mul_one] at upper
    refine ⟨by omega, fun index inside begins => ?_⟩
    dsimp only
    rw [← inUse.1, Function.update_self, filled, if_pos ⟨by omega, begins⟩]
    exact entry

/-- What the codes below a node make of builder and state. -/
def Passed (plan : Plan) (tree : CodeTree) (code : List Bool) (m bits : Nat) (level : Level)
    (below : List Level) (behind : List Nat) : Prop :=
  ∀ builder s, Begun plan tree code m bits level below builder s → Room plan tree.inner s →
    (placeAll plan (schedule (tree.depths code.length) behind) builder).Ensures s (fun _ => False)
      fun builder' s' => Moved plan tree code m tree.inner level below builder s builder' s' ∧
        Held plan tree code m bits level below s s'

theorem partOf_snoc (lower : plan.l * below.length ≤ code.length) (bit : Bool) :
    partOf plan below (code ++ [bit]) = partOf plan below code ++ [bit] :=
  List.drop_append_of_le_length lower

/-- The first code below a node is the first below its left child. -/
theorem Begun.left (begun : Begun plan (.node zero one) code m bits level below builder s)
    (inside : code.length < plan.l * (below.length + 1)) :
    Begun plan zero (code ++ [false]) m bits level below builder s := by
  have length : (code ++ [false]).length = code.length + 1 := by simp
  have lower := begun.lower
  have reach := begun.reach
  rw [CodeTree.height] at reach
  refine ⟨?_, begun.p, begun.levels, begun.frames.append lower _, ?_, ?_, begun.old, ?_, ?_,
    begun.bound⟩
  · rw [begun.i, bitsValue_snoc, Bool.toNat_false, Nat.mul_zero, Nat.add_zero (bitsValue code)]
  · omega
  · omega
  · rcases begun.current with inUse | deeper
    · exact .inl inUse
    · right
      intro k member
      rw [length] at member
      exact deeper k (List.mem_append_left _ member)
  · rw [partOf_snoc lower, List.length_append, List.length_singleton]
    omega

/-- The first code behind a left child is the first below the right one. -/
theorem Begun.right {builder' : Builder} {s' : State}
    (shape : Shape plan before behind code.length (.node zero one))
    (begun : Begun plan (.node zero one) code m bits level below builder s)
    (inside : code.length < plan.l * (below.length + 1))
    (moved : Moved plan zero (code ++ [false]) m count level below builder s builder' s') :
    Begun plan one (code ++ [true]) (m + zero.size) bits level below builder' s' := by
  have length : ∀ bit, (code ++ [bit]).length = code.length + 1 := by simp
  have lower := begun.lower
  have reach := begun.reach
  rw [CodeTree.height] at reach
  have next : builder'.i = bitsValue (code ++ [true]) := by
    rw [moved.i, length, increment_false]
  have stays : bitsValue (code ++ [true]) % 2 ^ (plan.l * below.length) = level.x := by
    rw [bitsValue_take, List.take_append_of_le_length lower]
    exact begun.frames.1.symm
  refine ⟨next, moved.p, ?_, begun.frames.append lower _, ?_, ?_, ?_, ?_, ?_, begun.bound⟩
  · rw [moved.levels, length, increment_false, backUp_stays stays]
  · rw [length]
    omega
  · rw [length]
    omega
  · exact lt_of_lt_of_le begun.old moved.lower
  · by_cases short : ∀ k ∈ zero.depths (code.length + 1), k ≤ plan.l * (below.length + 1)
    · obtain ⟨sameQ, sameZ⟩ := moved.current (by rwa [length])
      rw [sameQ, sameZ, length]
      rcases begun.current with inUse | deeper
      · exact .inl inUse
      · exact .inr fun k member => deeper k (List.mem_append_right _ member)
    · right
      push Not at short
      obtain ⟨k, member, deep⟩ := short
      intro k' later
      rw [length] at later
      exact lt_of_lt_of_le deep (shape.ordered k member k' later)
  · rw [partOf_snoc lower, List.length_append, List.length_singleton]
    omega

/-- The codes below a node are those below its children. -/
theorem placeAll_children (shape : Shape plan before behind code.length (.node zero one))
    (begun : Begun plan (.node zero one) code m bits level below builder s)
    (inside : code.length < plan.l * (below.length + 1))
    (roomy : Room plan (zero.inner + one.inner) s)
    (first : Passed plan zero (code ++ [false]) m bits level below
      (one.depths (code.length + 1) ++ behind))
    (second : Passed plan one (code ++ [true]) (m + zero.size) bits level below behind) :
    (placeAll plan (schedule ((CodeTree.node zero one).depths code.length) behind) builder).Ensures
      s (fun _ => False) fun builder' s' =>
        Moved plan (.node zero one) code m (zero.inner + one.inner) level below builder s
          builder' s' ∧
        Held plan zero (code ++ [false]) m bits level below s s' ∧
        Held plan one (code ++ [true]) (m + zero.size) bits level below s s' := by
  have length : ∀ bit, (code ++ [bit]).length = code.length + 1 := by simp
  have lower := begun.lower
  unfold Passed at first second
  rw [length] at first second
  rw [CodeTree.depths, schedule_append, placeAll_append]
  have left : Room plan zero.inner s :=
    ⟨roomy.aligned, roomy.positive, lt_of_le_of_lt (Nat.add_le_add_left
      (Nat.mul_le_mul_right _ (Nat.le_add_right _ _)) _) roomy.room⟩
  apply (first builder s (begun.left inside) left).andThen
  rintro builder₁ s₁ ⟨moved₁, held₁⟩
  have ended : s.freeMemEndPtr = s₁.freeMemEndPtr := by
    have field := congrArg State.freeMemEndPtr moved₁.unbuilt
    exact field.symm
  have right : Room plan one.inner s₁ := by
    have room := roomy.room
    have upper := moved₁.upper
    rw [Nat.add_mul] at room
    exact ⟨moved₁.aligned, lt_of_lt_of_le roomy.positive moved₁.lower, by omega⟩
  apply (second builder₁ s₁ (begun.right shape inside moved₁) right).mono (fun _ none => none)
  rintro builder₂ s₂ ⟨moved₂, held₂⟩
  -- The words of the two children do not begin alike.
  have apart : ∀ index, index % 2 ^ (partOf plan below (code ++ [false])).length =
      bitsValue (partOf plan below (code ++ [false])) →
      index % 2 ^ (partOf plan below (code ++ [true])).length ≠
        bitsValue (partOf plan below (code ++ [true])) := by
    intro index begins begins'
    rw [partOf_snoc lower] at begins begins'
    rw [List.length_append, List.length_singleton] at begins begins'
    rw [begins, bitsValue_snoc, bitsValue_snoc, Bool.toNat_false, Bool.toNat_true, Nat.mul_zero,
      Nat.mul_one] at begins'
    have positive := Nat.two_pow_pos (partOf plan below code).length
    omega
  have low := moved₁.lower
  refine ⟨?_, ?_, ?_⟩
  · have behindBoth : increment (code.length + 1) (bitsValue (code ++ [true])) =
        increment code.length (bitsValue code) := increment_true
    refine ⟨?_, ?_, ?_, moved₂.t.trans moved₁.t, ?_, Nat.le_trans low moved₂.lower, ?_,
      moved₂.aligned, moved₂.unbuilt.trans moved₁.unbuilt, ?_, ?_⟩
    · rw [moved₂.i, length, behindBoth]
    · rw [moved₂.p, CodeTree.size, Nat.add_assoc]
    · rw [moved₂.levels, length, behindBoth]
    · intro short
      obtain ⟨q₁, z₁⟩ := moved₁.current fun k member => short k (by
        rw [length] at member
        exact List.mem_append_left _ member)
      obtain ⟨q₂, z₂⟩ := moved₂.current fun k member => short k (by
        rw [length] at member
        exact List.mem_append_right _ member)
      exact ⟨q₂.trans q₁, z₂.trans z₁⟩
    · have upper₁ := moved₁.upper
      have upper₂ := moved₂.upper
      rw [Nat.add_mul]
      omega
    · intro q old other
      rw [moved₂.kept q (lt_of_lt_of_le old low) other, moved₁.kept q old other]
    · intro index other
      have otherBit : ∀ bit, index % 2 ^ (partOf plan below (code ++ [bit])).length ≠
          bitsValue (partOf plan below (code ++ [bit])) := by
        intro bit begins
        rw [partOf_snoc lower] at begins
        exact other (begins_of_snoc begins)
      rw [moved₂.here index (otherBit true), moved₁.here index (otherBit false)]
  · unfold Held
    apply (held₁.congr _ _).mono (Nat.le_refl _) moved₂.lower
    · intro index begins
      exact moved₂.here index (apart index begins)
    · intro q' above below'
      have different : q' ≠ level.u := by
        have old := begun.old
        omega
      exact moved₂.kept q' below' different
  · exact held₂.mono low (Nat.le_refl _)

/-- A node at the end of a table gets a table of its own. -/
theorem openTable_begun (shape : Shape plan before behind code.length tree)
    (begun : Begun plan tree code m bits level below builder s) (inner : 1 ≤ tree.height)
    (ended : code.length = plan.l * (below.length + 1)) (some : 1 ≤ plan.l)
    (roomy : Room plan (count + 1) s) {k : Nat} {rest : List Nat}
    (split : tree.depths code.length = k :: rest) :
    (openTable plan k ((rest ++ behind).count k) builder).Ensures s (fun _ => False)
      fun builder' s' => ∃ bits' q', 1 ≤ bits' ∧
        Begun plan tree code m bits' ⟨q', bitsValue code⟩ (level :: below) builder' s' ∧
        Room plan count s' ∧ builder'.t = builder.t ∧ s'.unbuilt = s.unbuilt ∧
        s.freeMemPtr < q' ∧ s.freeMemPtr ≤ s'.freeMemPtr ∧
        s'.freeMemPtr ≤ s.freeMemPtr + tableBytes plan ∧
        s'.tables = Function.update s.tables level.u
          (Function.update (s.tables level.u) (bitsValue (partOf plan below code))
            { e := 16 + bits', b := plan.l, v := q' }) := by
  obtain ⟨deep, bound⟩ := shape.tableBits split
  have opened : plan.l * builder.levels.length = code.length := by
    rw [begun.levels, List.length_cons, ended]
  have behindRoot : plan.l ≤ code.length := by
    rw [ended]
    exact Nat.le_mul_of_pos_right _ (Nat.succ_pos _)
  have small := bound behindRoot
  have place : builder.i >>> (plan.l * builder.levels.length - plan.l) =
      bitsValue (partOf plan below code) := by
    have start : plan.l * builder.levels.length - plan.l = plan.l * below.length := by
      rw [begun.levels, List.length_cons, Nat.mul_add, Nat.mul_one, Nat.add_sub_cancel]
    rw [start, Nat.shiftRight_eq_div_pow, begun.i, bitsValue_drop code begun.lower]
    rfl
  have fits : tableBits plan (plan.l * builder.levels.length) k ((rest ++ behind).count k) ≤
      plan.l + 1 := by
    rw [opened]
    omega
  have room := roomy.room
  obtain ⟨-, aligned, upper⟩ := roomy.table (by omega :
    tableBits plan code.length k ((rest ++ behind).count k) ≤ plan.l + 1)
  apply (openTable_next begun.levels roomy fits).mono (fun _ none => none)
  rintro builder' s' ⟨bits', same, rfl, rfl⟩
  rw [opened] at same
  rw [← same] at deep small aligned upper
  have grown : s.freeMemPtr + sizeofHuft < s.freeMemPtr + (2 ^ bits' + 1) * sizeofHuft := by
    have positive := Nat.two_pow_pos bits'
    unfold sizeofHuft
    omega
  rw [Nat.add_mul, Nat.one_mul] at room
  refine ⟨bits', s.freeMemPtr + sizeofHuft, by omega, ?_, ⟨aligned, ?_, ?_⟩, rfl, rfl, ?_,
    Nat.le_add_right _ _, upper, ?_⟩
  · refine ⟨begun.i, begun.p, ?_, ⟨?_, begun.frames⟩, ?_, ?_, grown, .inl ⟨rfl, Nat.le_refl _⟩, ?_,
      small⟩
    · rw [← begun.i, ← begun.levels]
    · rw [List.length_cons, ← ended, List.take_length]
    · rw [List.length_cons, ended]
    · rw [List.length_cons, ended]
      exact Nat.mul_le_mul_left _ (Nat.le_succ _)
    · have part : (partOf plan (level :: below) code).length = 0 := by
        rw [partOf, List.length_cons, ← ended, List.drop_length, List.length_nil]
      rwa [part, Nat.zero_add]
  · exact lt_of_lt_of_le roomy.positive (Nat.le_add_right _ _)
  · dsimp only
    omega
  · unfold sizeofHuft
    omega
  · dsimp only
    rw [place]

/-- A node inside of a table: its children stand in the same table. -/
theorem placeAll_inside (shape : Shape plan before behind code.length (.node zero one))
    (begun : Begun plan (.node zero one) code m bits level below builder s)
    (inside : code.length < plan.l * (below.length + 1))
    (roomy : Room plan (CodeTree.node zero one).inner s)
    (zeroPassed : Passed plan zero (code ++ [false]) m bits level below
      (one.depths (code.length + 1) ++ behind))
    (onePassed : Passed plan one (code ++ [true]) (m + zero.size) bits level below behind) :
    (placeAll plan (schedule ((CodeTree.node zero one).depths code.length) behind) builder).Ensures
      s (fun _ => False) fun builder' s' =>
        Moved plan (.node zero one) code m (CodeTree.node zero one).inner level below builder s
          builder' s' ∧
        Held plan (.node zero one) code m bits level below s s' := by
  have room := roomy.room
  have fewer : Room plan (zero.inner + one.inner) s := by
    refine ⟨roomy.aligned, roomy.positive, lt_of_le_of_lt ?_ room⟩
    exact Nat.add_le_add_left (Nat.mul_le_mul_right _ (Nat.le_succ _)) _
  apply (placeAll_children shape begun inside fewer zeroPassed onePassed).mono
    (fun _ none => none)
  rintro builder' s' ⟨moved, heldZero, heldOne⟩
  have upper : s'.freeMemPtr ≤ s.freeMemPtr +
      (CodeTree.node zero one).inner * tableBytes plan := Nat.le_trans moved.upper
    (Nat.add_le_add_left (Nat.mul_le_mul_right _ (Nat.le_succ _)) _)
  refine ⟨{ moved with upper }, ?_⟩
  have part : (partOf plan below code).length ≠ plan.l := by
    have start : (partOf plan below code).length = code.length - plan.l * below.length :=
      List.length_drop
    have lower := begun.lower
    rw [Nat.mul_add, Nat.mul_one] at inside
    omega
  unfold Held at heldZero heldOne ⊢
  rw [partOf_snoc begun.lower] at heldZero heldOne
  rw [Holds, if_neg part]
  exact ⟨heldZero, heldOne⟩

/-- A node at the end of a table: its children stand in a table of their own. -/
theorem placeAll_ended (some : 1 ≤ plan.l)
    (shape : Shape plan before behind code.length (.node zero one))
    (begun : Begun plan (.node zero one) code m bits level below builder s)
    (ended : code.length = plan.l * (below.length + 1))
    (roomy : Room plan (CodeTree.node zero one).inner s)
    (zeroPassed : ∀ bits level below, Passed plan zero (code ++ [false]) m bits level below
      (one.depths (code.length + 1) ++ behind))
    (onePassed : ∀ bits level below,
      Passed plan one (code ++ [true]) (m + zero.size) bits level below behind) :
    (placeAll plan (schedule ((CodeTree.node zero one).depths code.length) behind) builder).Ensures
      s (fun _ => False) fun builder' s' =>
        Moved plan (.node zero one) code m (CodeTree.node zero one).inner level below builder s
          builder' s' ∧
        Held plan (.node zero one) code m bits level below s s' := by
  obtain ⟨k, rest, split⟩ : ∃ k rest, (CodeTree.node zero one).depths code.length =
      k :: rest := by
    apply List.exists_cons_of_length_pos
    rw [CodeTree.length_depths]
    exact CodeTree.size_pos _
  have deeper : ∀ k' ∈ (CodeTree.node zero one).depths code.length, code.length < k' := by
    intro k' member
    rcases List.mem_append.mp member with inZero | inOne
    · exact zero.le_of_mem_depths inZero
    · exact one.le_of_mem_depths inOne
  have longer : k > plan.l * builder.levels.length := by
    rw [begun.levels, List.length_cons, ← ended]
    exact deeper k (by rw [split]; exact List.mem_cons_self)
  have part : (partOf plan below code).length = plan.l := by
    rw [partOf, List.length_drop, ended, Nat.mul_add, Nat.mul_one, Nat.add_sub_cancel_left]
  have reach := begun.reach
  have bound := begun.bound
  have inner : 1 ≤ (CodeTree.node zero one).height := Nat.succ_le_succ (Nat.zero_le _)
  have old := begun.old
  rw [split, schedule, placeAll_open some _ longer]
  apply (openTable_begun shape begun inner ended some roomy split).andThen
  rintro builder₁ s₁ ⟨bits', q', positive, begun₁, roomy₁, same, unbuilt, above, low, upper,
    linked⟩
  have wide : code.length < plan.l * ((level :: below).length + 1) := by
    rw [List.length_cons, Nat.mul_add, Nat.mul_one, ← ended]
    omega
  have children := placeAll_children shape begun₁ wide roomy₁ (zeroPassed _ _ _)
    (onePassed _ _ _)
  rw [split, schedule] at children
  apply children.mono (fun _ none => none)
  rintro builder₂ s₂ ⟨moved, heldZero, heldOne⟩
  have kept : ∀ q, q < s.freeMemPtr → s₂.tables q = s₁.tables q := fun q before =>
    moved.kept q (by omega) (by dsimp only; omega)
  refine ⟨⟨moved.i, moved.p, ?_, moved.t.trans same, ?_, Nat.le_trans low moved.lower, ?_,
    moved.aligned, moved.unbuilt.trans unbuilt, ?_, ?_⟩, ?_⟩
  · have nonempty : code ≠ [] := by
      intro empty
      rw [empty, List.length_nil, Nat.mul_add, Nat.mul_one] at ended
      omega
    have gone : increment code.length (bitsValue code) %
        2 ^ (plan.l * (level :: below).length) ≠ bitsValue code := by
      rw [List.length_cons, ← ended]
      exact increment_ne nonempty
    rw [moved.levels, backUp_leaves gone]
  · intro short
    have bound := short k (by rw [split]; exact List.mem_cons_self)
    rw [begun.levels, List.length_cons] at longer
    omega
  · have grown := moved.upper
    rw [CodeTree.inner, Nat.add_mul, Nat.one_mul]
    omega
  · intro q before other
    rw [kept q before, linked, Function.update_of_ne other]
  · intro index other
    have different : index ≠ bitsValue (partOf plan below code) := by
      rintro rfl
      exact other (Nat.mod_eq_of_lt (bitsValue_lt _))
    rw [kept _ old, linked, Function.update_self, Function.update_of_ne different]
  · have empty : partOf plan (level :: below) code = [] := by
      rw [partOf, List.length_cons, ← ended, List.drop_length]
    unfold Held at heldZero heldOne ⊢
    rw [partOf_snoc begun₁.lower, empty, List.nil_append] at heldZero heldOne
    rw [Holds, if_pos part]
    have link : s₂.tables level.u (bitsValue (partOf plan below code)) =
        { e := 16 + bits', b := plan.l, v := q' } := by
      rw [kept _ old, linked, Function.update_self, Function.update_self]
    have inUse : q' < s₁.freeMemPtr := begun₁.old
    exact ⟨by omega, q', bits', above, lt_of_lt_of_le inUse moved.lower, positive,
      begun₁.bound, link, heldZero.mono low (Nat.le_refl _),
      heldOne.mono low (Nat.le_refl _)⟩

/-- The codes below any node are entered into the tables. -/
theorem placeAll_passed (some : 1 ≤ plan.l) (shape : Shape plan before behind code.length tree) :
    Passed plan tree code m bits level below behind := by
  induction tree generalizing before behind code m bits level below with
  | leaf =>
      intro builder s begun roomy
      exact (placeCode_leaf begun roomy.aligned _).andThen fun _ _ passed => passed
  | node zero one ihZero ihOne =>
      intro builder s begun roomy
      have length : ∀ bit, (code ++ [bit]).length = code.length + 1 := by simp
      have zeroPassed : ∀ bits level below, Passed plan zero (code ++ [false]) m bits level below
          (one.depths (code.length + 1) ++ behind) := fun bits level below =>
        ihZero (by rw [length]; exact shape.left)
      have onePassed : ∀ bits level below,
          Passed plan one (code ++ [true]) (m + zero.size) bits level below behind :=
        fun bits level below => ihOne (by rw [length]; exact shape.right)
      rcases Nat.lt_or_eq_of_le begun.upper with inside | ended
      · exact placeAll_inside shape begun inside roomy (zeroPassed _ _ _) (onePassed _ _ _)
      · exact placeAll_ended some shape begun ended roomy zeroPassed onePassed

end Passes

end Cromwell.Gzip
