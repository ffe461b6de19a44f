import Cromwell.Gzip.Tables

/-!
# What the tables hold

A table holds a subtree of a code when every leaf has its entry at all places that
begin with its word, and every node at the end of a table has a link to a table of its
own. The parts of the loop over the codes are described by what they do to the tables
and to the builder.
-/

namespace Cromwell.Gzip

open Cromwell.Std Program

/-- What the entry for a place of `v` says, as operation and number. -/
def codeOperation (plan : Plan) (m : Nat) : Nat × Nat :=
  if plan.v m < plan.s then (if plan.v m < 256 then 16 else 15, plan.v m % 2 ^ 16)
  else (plan.e.getD (plan.v m - plan.s) 0 % 256, plan.d.getD (plan.v m - plan.s) 0 % 2 ^ 16)

/-- The entry of the code of rank `m`, with the bits of it that its table decodes. -/
def IsEntry (plan : Plan) (m bits : Nat) (entry : Huft) : Prop :=
  entry.b = bits ∧
    if m < plan.n then entry.e = (codeOperation plan m).1 ∧ entry.n = (codeOperation plan m).2
    else entry.e = 99

/-- The table at `q`, which is looked up with `bits` bits, holds a subtree below the part of
the word that it decodes. The tables that are linked lie between two addresses. -/
def Holds (plan : Plan) (tables : Nat → Nat → Huft) (low high : Nat) :
    (q bits : Nat) → (part : List Bool) → (m : Nat) → CodeTree → Prop
  | q, bits, part, m, .leaf =>
    part.length ≤ bits ∧ ∀ index, index < 2 ^ bits → index % 2 ^ part.length = bitsValue part →
      IsEntry plan m part.length (tables q index)
  | q, bits, part, m, .node zero one =>
    if part.length = plan.l then
      bits = plan.l ∧ ∃ q' bits', low < q' ∧ q' < high ∧ 1 ≤ bits' ∧ bits' ≤ plan.l ∧
        tables q (bitsValue part) = { e := 16 + bits', b := plan.l, v := q' } ∧
        Holds plan tables low high q' bits' [false] m zero ∧
        Holds plan tables low high q' bits' [true] (m + zero.size) one
    else
      Holds plan tables low high q bits (part ++ [false]) m zero ∧
        Holds plan tables low high q bits (part ++ [true]) (m + zero.size) one

/-- A longer part is found where a shorter one is. -/
theorem begins_of_snoc {part : List Bool} {bit : Bool} {index : Nat}
    (begins : index % 2 ^ (part ++ [bit]).length = bitsValue (part ++ [bit])) :
    index % 2 ^ part.length = bitsValue part := by
  have small := bitsValue_lt part
  have length : (part ++ [bit]).length = part.length + 1 := by simp
  have divides : 2 ^ part.length ∣ 2 ^ (part ++ [bit]).length :=
    Nat.pow_dvd_pow 2 (by omega)
  rw [← Nat.mod_mod_of_dvd index divides, begins, bitsValue_snoc, Nat.add_mul_mod_self_left,
    Nat.mod_eq_of_lt small]

section Holds

variable {plan : Plan} {tables tables' : Nat → Nat → Huft} {low high low' high' : Nat}
  {tree : CodeTree}

/-- The tables that are linked may be anywhere in a wider range. -/
theorem Holds.mono {q bits m : Nat} {part : List Bool}
    (holds : Holds plan tables low high q bits part m tree) (lower : low' ≤ low)
    (higher : high ≤ high') : Holds plan tables low' high' q bits part m tree := by
  induction tree generalizing q bits part m with
  | leaf => exact holds
  | node zero one ihZero ihOne =>
      unfold Holds at holds ⊢
      split
      · next last =>
        rw [if_pos last] at holds
        obtain ⟨whole, q', bits', above, below, some, few, link, left, right⟩ := holds
        exact ⟨whole, q', bits', by omega, by omega, some, few, link, ihZero left, ihOne right⟩
      · next inner =>
        rw [if_neg inner] at holds
        exact ⟨ihZero holds.1, ihOne holds.2⟩

/-- A change of other entries does not matter. -/
theorem Holds.congr {q bits m : Nat} {part : List Bool}
    (holds : Holds plan tables low high q bits part m tree)
    (here : ∀ index, index % 2 ^ part.length = bitsValue part → tables' q index = tables q index)
    (linked : ∀ q', low < q' → q' < high → tables' q' = tables q') :
    Holds plan tables' low high q bits part m tree := by
  induction tree generalizing q bits part m with
  | leaf =>
      refine ⟨holds.1, fun index inside begins => ?_⟩
      rw [here index begins]
      exact holds.2 index inside begins
  | node zero one ihZero ihOne =>
      unfold Holds at holds ⊢
      split
      · next last =>
        rw [if_pos last] at holds
        obtain ⟨whole, q', bits', above, below, some, few, link, left, right⟩ := holds
        have same := linked q' above below
        refine ⟨whole, q', bits', above, below, some, few, ?_, ?_, ?_⟩
        · rw [here _ (Nat.mod_eq_of_lt (bitsValue_lt part)), link]
        · exact ihZero left fun index _ => congrFun same index
        · exact ihOne right fun index _ => congrFun same index
      · next inner =>
        rw [if_neg inner] at holds
        exact ⟨ihZero holds.1 fun index begins => here index (begins_of_snoc begins),
          ihOne holds.2 fun index begins => here index (begins_of_snoc begins)⟩

end Holds

/-! ## Memory -/

/-- The state without what `huft_build` changes. -/
def State.unbuilt (s : State) : State :=
  { s with tables := fun _ _ => ⟨0, 0, 0⟩, freeMemPtr := 0, builds := 0 }

/-- The most a table takes. -/
def tableBytes (plan : Plan) : Nat := (2 ^ (plan.l + 1) + 1) * sizeofHuft

/-- There is memory for some tables. -/
structure Room (plan : Plan) (count : Nat) (s : State) : Prop where
  aligned : s.freeMemPtr % 4 = 0
  positive : 0 < s.freeMemPtr
  room : s.freeMemPtr + count * tableBytes plan < s.freeMemEndPtr

section Memory

variable {plan : Plan} {s : State} {size count : Nat}

theorem gzipMalloc_gives (aligned : s.freeMemPtr % 4 = 0) (positive : 0 < s.freeMemPtr)
    (room : s.freeMemPtr + size < s.freeMemEndPtr) :
    (gzipMalloc size).Ensures s (fun _ => False) fun p after =>
      p = s.freeMemPtr ∧ after = { s with freeMemPtr := s.freeMemPtr + size } := by
  have place : (s.freeMemPtr + 3) / 4 * 4 = s.freeMemPtr := by omega
  unfold gzipMalloc
  rw [ensures_bind, ensures_look, if_neg (Nat.ne_of_gt positive), ensures_bind, ensures_look,
    ensures_bind, ensures_alter, ensures_bind, ensures_look, place]
  have free : ¬ s.freeMemEndPtr ≤ s.freeMemPtr + size := by omega
  simp only [free, decide_false]
  exact ⟨rfl, rfl⟩

/-- A table takes its place and leaves the rest. -/
theorem Room.table {bits : Nat} (roomy : Room plan (count + 1) s) (fits : bits ≤ plan.l + 1) :
    s.freeMemPtr + (2 ^ bits + 1) * sizeofHuft < s.freeMemEndPtr ∧
      (s.freeMemPtr + (2 ^ bits + 1) * sizeofHuft) % 4 = 0 ∧
      s.freeMemPtr + (2 ^ bits + 1) * sizeofHuft ≤ s.freeMemPtr + tableBytes plan := by
  have power : 2 ^ bits ≤ 2 ^ (plan.l + 1) := Nat.pow_le_pow_right (by omega) fits
  have aligned := roomy.aligned
  have room := roomy.room
  unfold tableBytes sizeofHuft at *
  rw [Nat.add_mul, Nat.one_mul] at room
  omega

end Memory

/-! ## The parts of a pass -/

section Parts

variable {plan : Plan} {s : State} {builder : Builder} {k a count m : Nat}

/-- The entry for the next place of `v`. -/
theorem setEntry_isEntry (bits : Nat) (place : builder.p = min m plan.n) :
    IsEntry plan m bits (setEntry plan bits builder).r ∧
      (setEntry plan bits builder).p = min (m + 1) plan.n := by
  unfold setEntry IsEntry codeOperation
  split
  · next out =>
    have beyond : ¬ m < plan.n := by omega
    rw [if_neg beyond]
    exact ⟨⟨rfl, rfl⟩, by dsimp only; omega⟩
  · next more =>
    have inside : m < plan.n := by omega
    have here : builder.p = m := by omega
    have number : ∀ (entry : Huft) (value : Nat), (entry.setN value).n = value % 2 ^ 16 := by
      intro entry value
      rw [Huft.setN, Huft.n, Nat.add_mod, Nat.mul_mod_left, Nat.zero_add, Nat.mod_mod, Nat.mod_mod]
    rw [if_pos inside, here]
    dsimp only
    split
    · exact ⟨⟨rfl, rfl, number _ _⟩, by dsimp only; omega⟩
    · exact ⟨⟨rfl, rfl, number _ _⟩, by dsimp only; omega⟩

/-- Nothing else of the builder changes. -/
theorem setEntry_other (bits : Nat) :
    (setEntry plan bits builder).i = builder.i ∧
      (setEntry plan bits builder).levels = builder.levels ∧
      (setEntry plan bits builder).q = builder.q ∧ (setEntry plan bits builder).z = builder.z ∧
      (setEntry plan bits builder).t = builder.t := by
  unfold setEntry
  split
  · exact ⟨rfl, rfl, rfl, rfl, rfl⟩
  · dsimp only
    split
    · exact ⟨rfl, rfl, rfl, rfl, rfl⟩
    · exact ⟨rfl, rfl, rfl, rfl, rfl⟩

/-- The first table. -/
theorem openTable_first (first : builder.levels = []) (roomy : Room plan (count + 1) s)
    (fits : tableBits plan 0 k a ≤ plan.l + 1) :
    (openTable plan k a builder).Ensures s (fun _ => False) fun builder' s' =>
      builder' = { builder with
        levels := [⟨s.freeMemPtr + sizeofHuft, 0⟩]
        q := s.freeMemPtr + sizeofHuft
        z := 2 ^ tableBits plan 0 k a
        t := s.freeMemPtr + sizeofHuft } ∧
      s' = { s with freeMemPtr := s.freeMemPtr + (2 ^ tableBits plan 0 k a + 1) * sizeofHuft } := by
  obtain ⟨room, -, -⟩ := roomy.table fits
  unfold openTable
  simp only [first, List.length_nil, Nat.mul_zero]
  apply (gzipMalloc_gives roomy.aligned roomy.positive room).andThen
  rintro p s' ⟨rfl, rfl⟩
  exact ⟨rfl, rfl⟩

/-- A further table is linked to the one before. -/
theorem openTable_next {level : Level} {below : List Level}
    (levels : builder.levels = level :: below) (roomy : Room plan (count + 1) s)
    (fits : tableBits plan (plan.l * builder.levels.length) k a ≤ plan.l + 1) :
    (openTable plan k a builder).Ensures s (fun _ => False) fun builder' s' =>
      ∃ bits, bits = tableBits plan (plan.l * builder.levels.length) k a ∧
      builder' = { builder with
        levels := ⟨s.freeMemPtr + sizeofHuft, builder.i⟩ :: builder.levels
        q := s.freeMemPtr + sizeofHuft
        z := 2 ^ bits
        r := { e := 16 + bits, b := plan.l, v := s.freeMemPtr + sizeofHuft } } ∧
      s' = { s with
        freeMemPtr := s.freeMemPtr + (2 ^ bits + 1) * sizeofHuft
        tables := Function.update s.tables level.u
          (Function.update (s.tables level.u)
            (builder.i >>> (plan.l * builder.levels.length - plan.l))
            { e := 16 + bits, b := plan.l, v := s.freeMemPtr + sizeofHuft }) } := by
  obtain ⟨room, -, -⟩ := roomy.table fits
  unfold openTable
  rw [levels] at *
  apply (gzipMalloc_gives roomy.aligned roomy.positive room).andThen
  rintro p s' ⟨rfl, rfl⟩
  exact ⟨_, rfl, rfl, rfl⟩

/-- A table is a level. -/
theorem openTable_levels (state : State) :
    (openTable plan k a builder).Ensures state (fun _ => True) fun builder' _ =>
      builder'.levels.length = builder.levels.length + 1 := by
  unfold openTable
  apply (ensures_true (gzipMalloc _) state).andThen
  intro p s' _
  dsimp only
  split
  · next first =>
    rw [first]
    rfl
  · next level below levels =>
    rw [levels]
    rfl

/-- Further passes make no more tables. -/
theorem makeTables_succ (some : 1 ≤ plan.l) (passes : Nat)
    (enough : k ≤ builder.levels.length + passes) :
    makeTables plan k a (passes + 1) builder = makeTables plan k a passes builder := by
  induction passes generalizing builder with
  | zero =>
      have few : ¬ k > plan.l * builder.levels.length := by
        have wide := Nat.mul_le_mul_right builder.levels.length some
        omega
      conv => lhs; rw [makeTables, if_neg few]
      rfl
  | succ passes ih =>
      rw [makeTables]
      conv => rhs; rw [makeTables]
      split
      · funext state
        have levels := @openTable_levels plan builder k a state
        simp only [bind]
        unfold Ensures at levels
        cases opened : openTable plan k a builder state with
        | next cutOff => rfl
        | leave outcome =>
            rw [opened] at levels
            have more : outcome.1.levels.length = builder.levels.length + 1 := levels
            have rest := @ih outcome.1 (by omega)
            exact congrFun rest outcome.2
      · rfl

/-- Where a table is missing, a pass begins by making it. -/
theorem placeCode_open (some : 1 ≤ plan.l) (missing : k > plan.l * builder.levels.length) :
    placeCode plan k a builder =
      openTable plan k a builder >>= fun builder => placeCode plan k a builder := by
  obtain ⟨before, rfl⟩ := Nat.exists_eq_succ_of_ne_zero (Nat.ne_of_gt (Nat.zero_lt_of_lt missing))
  have begins : makeTables plan (before + 1) a (before + 1) builder =
      openTable plan (before + 1) a builder >>= fun builder =>
        makeTables plan (before + 1) a before builder := by
    rw [makeTables, if_pos missing]
  unfold placeCode
  rw [begins, bind_assoc]
  funext state
  have levels := @openTable_levels plan builder (before + 1) a state
  simp only [bind]
  unfold Ensures at levels
  cases opened : openTable plan (before + 1) a builder state with
  | next cutOff => rfl
  | leave outcome =>
      rw [opened] at levels
      have more : outcome.1.levels.length = builder.levels.length + 1 := levels
      dsimp only
      rw [makeTables_succ some before (by omega)]

/-- Where no table is missing, none is made. -/
theorem makeTables_none (present : k ≤ plan.l * builder.levels.length) (passes : Nat) :
    makeTables plan k a passes builder = return builder := by
  cases passes with
  | zero => rfl
  | succ passes => rw [makeTables, if_neg (by omega)]

end Parts

end Cromwell.Gzip
