import Cromwell.Gzip.CodeTables
import Cromwell.Gzip.BitReader

/-!
# Looking codes up

Where the input spells the word of a symbol, the tables lead to the symbol's entry, from
one table to the next at each place where a table ends inside the word. The bits left to
drop at the end are those the last table has decoded.
-/

namespace Cromwell.Gzip

open Cromwell.Std Program

section Walk

variable {plan : Plan} {tables : Nat → Nat → Huft} {low high q bits m r position : Nat}
  {tree : CodeTree} {part word : List Bool} {input : Nat → Byte}

/-- A word that its first table decodes is found there at once. -/
theorem Holds.entry (holds : Holds plan tables low high q bits part m tree)
    (leaf : tree.codes[r]? = some word) (short : part.length + word.length ≤ plan.l)
    (spells : Spells input position (part ++ word)) :
    IsEntry plan (m + r) (part.length + word.length) (tables q (fieldAt input position bits)) := by
  induction tree generalizing part m r word with
  | leaf =>
      obtain ⟨rfl, rfl⟩ : r = 0 ∧ word = [] := by
        cases r with
        | zero => exact ⟨rfl, (Option.some.inj leaf).symm⟩
        | succ r => cases leaf
      rw [List.append_nil] at spells
      have begins : fieldAt input position bits % 2 ^ part.length = bitsValue part := by
        rw [fieldAt_mod position holds.1, spells.fieldAt]
      exact holds.2 _ (fieldAt_lt position bits) begins
  | node zero one ihZero ihOne =>
      have length : ∀ bit, (part ++ [bit]).length = part.length + 1 := by simp
      rcases CodeTree.exists_child leaf with ⟨rest, rfl, inside⟩ | ⟨rest, r', rfl, rfl, inside⟩
      · rw [List.length_cons] at short ⊢
        rw [Holds, if_neg (by omega)] at holds
        have found := ihZero holds.1 inside (by rw [length]; omega)
          (by rwa [List.append_assoc, List.singleton_append])
        rwa [length, Nat.add_assoc, Nat.add_comm 1] at found
      · rw [List.length_cons] at short ⊢
        rw [Holds, if_neg (by omega)] at holds
        have found := ihOne holds.2 inside (by rw [length]; omega)
          (by rwa [List.append_assoc, List.singleton_append])
        rwa [length, Nat.add_assoc part.length, Nat.add_comm 1, Nat.add_assoc m] at found

variable {s : State} {fuel : Nat}

/-- A link leads to the entry of the next table. -/
theorem lookUpPass_link {t : Huft} {bits' : Nat} (reads : ReadsAt s position)
    (link : t.e = 16 + bits') (some : 1 ≤ bits') (few : bits' ≤ 16) (held : t.b ≤ s.bk)
    (room : position + t.b + bits' ≤ 8 * s.inputLen) :
    (lookUpPass t).Ensures s (fun _ => False) fun ended after =>
      ended = .next (s.tables t.v (fieldAt s.inputData (position + t.b) bits')) ∧
        ReadsAt after (position + t.b) ∧ bits' ≤ after.bk ∧ after.unread = s.unread := by
  have table : t.e > 16 := by omega
  have used : ¬ t.e = 99 := by omega
  have bits : t.e - 16 = bits' := by omega
  unfold lookUpPass
  rw [if_pos table, if_neg used, bits]
  apply (dumpBits_reads reads held).andThen
  rintro _ s₁ ⟨reads₁, -, same₁⟩
  apply (needBits_reads reads₁ few (by rwa [inputLen_of_unread same₁])).andThen
  rintro _ s₂ ⟨reads₂, held₂, same₂⟩
  apply (peekBits_reads reads₂ few held₂).andThen
  rintro _ s₃ ⟨rfl, rfl⟩
  have same := same₂.trans same₁
  rw [entryAt, ensures_bind, ensures_look, ensures_pure, inputData_of_unread same,
    tables_of_unread same]
  exact ⟨rfl, reads₂, held₂, same⟩

/-- A lookup has found the entry of an operation, whose bits are the last ones up to a
place. -/
def Found (s : State) (operation : Nat × Nat) (ends : Nat) (found : Option Huft)
    (after : State) : Prop :=
  ∃ t, found = some t ∧ t.e = operation.1 ∧ t.n = operation.2 ∧ after.unread = s.unread ∧
    t.b ≤ after.bk ∧ ∃ position', ReadsAt after position' ∧ position' + t.b = ends

/-- What has been read before a lookup does not matter. -/
theorem Found.after {s₁ after : State} {operation : Nat × Nat} {ends ends' : Nat}
    {found : Option Huft} (lookup : Found s₁ operation ends found after)
    (same : s₁.unread = s.unread) (place : ends = ends') :
    Found s operation ends' found after := by
  obtain ⟨t, known, e, n, same', held, reads⟩ := lookup
  rw [place] at reads
  exact ⟨t, known, e, n, same'.trans same, held, reads⟩

/-- A lookup goes from table to table up to the entry of the word. -/
theorem Holds.lookUp (holds : Holds plan tables low high q bits part m tree)
    (leaf : tree.codes[r]? = some word) (reads : ReadsAt s position) (same : s.tables = tables)
    (spells : Spells s.inputData position (part ++ word)) (held : bits ≤ s.bk)
    (few : plan.l ≤ 9)
    (room : position + part.length + word.length + plan.l ≤ 8 * s.inputLen)
    (real : m + r < plan.n) (known : (codeOperation plan (m + r)).1 ≤ 16)
    (enough : word.length < fuel) :
    (Program.loop lookUpPass fuel (tables q (fieldAt s.inputData position bits))).Ensures s
      (fun _ => False)
      (Found s (codeOperation plan (m + r)) (position + part.length + word.length)) := by
  induction tree generalizing part m r word q bits position s fuel with
  | leaf =>
      obtain ⟨rfl, rfl⟩ : r = 0 ∧ word = [] := by
        cases r with
        | zero => exact ⟨rfl, (Option.some.inj leaf).symm⟩
        | succ r => cases leaf
      rw [List.append_nil] at spells
      have begins : fieldAt s.inputData position bits % 2 ^ part.length = bitsValue part := by
        rw [fieldAt_mod position holds.1, spells.fieldAt]
      obtain ⟨decoded, operation⟩ := holds.2 _ (fieldAt_lt position bits) begins
      rw [Nat.add_zero m] at real known ⊢
      rw [if_pos real] at operation
      obtain ⟨fuel, rfl⟩ : ∃ more, fuel = more + 1 := ⟨fuel - 1, by omega⟩
      rw [Program.loop, ensures_bind, lookUpPass, if_neg (by omega)]
      have dropped := holds.1
      refine ⟨_, rfl, operation.1, operation.2, rfl, ?_, position, reads, ?_⟩
      · rw [decoded]
        exact Nat.le_trans dropped held
      · rw [decoded]
        simp
  | node zero one ihZero ihOne =>
      have length : ∀ bit, (part ++ [bit]).length = part.length + 1 := by simp
      by_cases last : part.length = plan.l
      · rw [Holds, if_pos last] at holds
        obtain ⟨whole, q', bits', -, -, some, short, link, left, right⟩ := holds
        have entry : tables q (fieldAt s.inputData position bits) =
            { e := 16 + bits', b := plan.l, v := q' } := by
          have field := ((spells_append position part word).mp spells).1.fieldAt
          rw [last, ← whole] at field
          rw [field, link]
        have rests : Spells s.inputData (position + plan.l) word := by
          have behind := ((spells_append position part word).mp spells).2
          rwa [last] at behind
        obtain ⟨fuel, rfl⟩ : ∃ more, fuel = more + 1 := ⟨fuel - 1, by omega⟩
        have longer : 1 ≤ word.length := by
          rcases CodeTree.exists_child leaf with ⟨rest, rfl, -⟩ | ⟨rest, r', rfl, -, -⟩
          · simp
          · simp
        rw [entry, Program.loop]
        apply (lookUpPass_link reads rfl some (by omega) (by dsimp only; omega)
          (by dsimp only; omega)).andThen
        rintro _ s₁ ⟨rfl, reads₁, held₁, same₁⟩
        have tables₁ : s₁.tables = tables := by
          rw [tables_of_unread same₁, same]
        have input₁ := inputData_of_unread same₁
        have inputLen₁ := inputLen_of_unread same₁
        dsimp only at reads₁ ⊢
        rw [same, ← input₁]
        rw [← input₁] at rests
        rcases CodeTree.exists_child leaf with ⟨rest, rfl, inside⟩ | ⟨rest, r', rfl, rfl, inside⟩
        · rw [List.length_cons] at room enough
          apply (ihZero left inside reads₁ tables₁ rests held₁
            (by rw [inputLen₁, List.length_singleton]; omega) real known
            (by omega)).mono (fun _ none => none)
          intro found after lookup
          apply lookup.after same₁
          rw [List.length_singleton, last, List.length_cons]
          omega
        · rw [← Nat.add_assoc m] at real known ⊢
          rw [List.length_cons] at room enough
          apply (ihOne right inside reads₁ tables₁ rests held₁
            (by rw [inputLen₁, List.length_singleton]; omega) real known
            (by omega)).mono (fun _ none => none)
          intro found after lookup
          apply lookup.after same₁
          rw [List.length_singleton, last, List.length_cons]
          omega
      · rw [Holds, if_neg last] at holds
        rcases CodeTree.exists_child leaf with ⟨rest, rfl, inside⟩ | ⟨rest, r', rfl, rfl, inside⟩
        · rw [List.length_cons] at room enough
          apply (ihZero holds.1 inside reads same (by rwa [List.append_assoc]) held
            (by rw [length]; omega) real known (by omega)).mono (fun _ none => none)
          intro found after lookup
          apply lookup.after rfl
          rw [length, List.length_cons]
          omega
        · rw [← Nat.add_assoc m] at real known ⊢
          rw [List.length_cons] at room enough
          apply (ihOne holds.2 inside reads same (by rwa [List.append_assoc]) held
            (by rw [length]; omega) real known (by omega)).mono (fun _ none => none)
          intro found after lookup
          apply lookup.after rfl
          rw [length, List.length_cons]
          omega

end Walk

/-! ## Tables that were built -/

section Frame

variable {s s' : State} (same : s'.unbuilt = s.unbuilt)

include same

theorem inputData_of_unbuilt : s'.inputData = s.inputData := by
  have field := congrArg State.inputData same
  exact field

theorem inputLen_of_unbuilt : s'.inputLen = s.inputLen := by
  have field := congrArg State.inputLen same
  exact field

/-- What reads bits does not see the tables. -/
theorem ReadsAt.of_unbuilt {position : Nat} (reads : ReadsAt s position) : ReadsAt s' position := by
  have opened : s.unbuilt.insize = s.unbuilt.inputLen := reads.opened
  have place : 8 * s.unbuilt.inptr = position + s.unbuilt.bk := reads.place
  have buffer : s.unbuilt.bb = fieldAt s.unbuilt.inputData position s.unbuilt.bk := reads.buffer
  have small : s.unbuilt.bk ≤ 23 := reads.small
  rw [← same] at opened place buffer small
  exact ⟨opened, place, buffer, small⟩

end Frame

section Built

variable {tables tables' : Nat → Nat → Huft} {low high high' : Nat} {b d e : List Nat} {s : Nat}
  {built : Built} {state : State} {position symbol fuel : Nat}

/-- What is built later does not change the tables. -/
theorem Decodes.kept (decodes : Decodes tables low high b s d e built)
    (same : ∀ q, q < high → tables' q = tables q) : Decodes tables' low high b s d e built := by
  obtain ⟨plan, tree, values, numbers, extra, bits, some, few, above, inside, holds, words⟩ :=
    decodes
  refine ⟨plan, tree, values, numbers, extra, bits, some, few, above, inside, ?_, words⟩
  apply holds.congr
  · intro index _
    rw [same _ inside]
  · intro q' _ below
    exact same q' below

/-- `lookUp` finds the entry of the symbol whose word the input spells. -/
theorem Decodes.lookUp (decodes : Decodes tables low high b s d e built)
    (used : b.getD symbol 0 ≠ 0) (known : (symbolOperation s d e symbol).1 ≤ 16)
    (reads : ReadsAt state position) (same : state.tables = tables)
    (spells : Spells state.inputData position (wordOf b symbol))
    (room : position + (wordOf b symbol).length + 9 ≤ 8 * state.inputLen)
    (enough : (wordOf b symbol).length < fuel) :
    (lookUp fuel built.t built.m).Ensures state (fun _ => False) fun found after =>
      ∃ t, found = some t ∧ t.e = (symbolOperation s d e symbol).1 ∧
        t.n = (symbolOperation s d e symbol).2 ∧ after.unread = state.unread ∧
        t.b ≤ after.bk ∧ ∃ position', ReadsAt after position' ∧
          position' + t.b = position + (wordOf b symbol).length := by
  obtain ⟨plan, tree, values, numbers, extra, bits, some, few, -, -, holds, words⟩ := decodes
  obtain ⟨place, inside, value, leaf⟩ := words symbol used
  have operation : codeOperation plan (0 + place) = symbolOperation s d e symbol := by
    rw [Nat.zero_add, codeOperation, symbolOperation, value, values, numbers, extra]
  unfold Gzip.lookUp
  apply (needBits_reads reads (by omega) (by omega)).andThen
  rintro _ s₁ ⟨reads₁, held₁, same₁⟩
  apply (peekBits_reads reads₁ (by omega) held₁).andThen
  rintro _ s₂ ⟨rfl, rfl⟩
  have tables₂ : s₂.tables = tables := by rw [tables_of_unread same₁, same]
  have inputData := inputData_of_unread same₁
  rw [entryAt, ensures_bind, ensures_look, tables₂]
  rw [← operation] at known ⊢
  apply (holds.lookUp leaf reads₁ tables₂ (by rwa [inputData]) held₁ (by omega)
    (by rw [inputLen_of_unread same₁, bits, List.length_nil]; omega) (by omega) known
    enough).mono (fun _ none => none)
  rintro found after ⟨t, rfl, operation', number, same₃, held₃, position', reads₃, ends⟩
  exact ⟨t, rfl, operation', number, same₃.trans same₁, held₃, position', reads₃, ends⟩

/-- The first table alone decodes a short word. -/
theorem Decodes.entry (decodes : Decodes tables low high b s d e built)
    (used : b.getD symbol 0 ≠ 0) (short : (wordOf b symbol).length ≤ built.m)
    {input : Nat → Byte} (spells : Spells input position (wordOf b symbol)) :
    (tables built.t (fieldAt input position built.m)).b = (wordOf b symbol).length ∧
      (tables built.t (fieldAt input position built.m)).e = (symbolOperation s d e symbol).1 ∧
      (tables built.t (fieldAt input position built.m)).n = (symbolOperation s d e symbol).2 := by
  obtain ⟨plan, tree, values, numbers, extra, bits, -, -, -, -, holds, words⟩ := decodes
  obtain ⟨place, inside, value, leaf⟩ := words symbol used
  have operation : codeOperation plan (0 + place) = symbolOperation s d e symbol := by
    rw [Nat.zero_add, codeOperation, symbolOperation, value, values, numbers, extra]
  obtain ⟨decoded, entry⟩ := holds.entry leaf
    (by rw [bits, List.length_nil, Nat.zero_add]; exact short) spells
  rw [if_pos (by omega), operation] at entry
  rw [List.length_nil, Nat.zero_add] at decoded
  exact ⟨decoded, entry.1, entry.2⟩

/-- The tables of `huft_build` are a decoder of the canonical code: where the input spells
the word of a symbol, the lookup finds the entry of that symbol and takes just that word. -/
theorem huftBuild_lookUp {m : Nat} (usable : Usable b) (bounded : ∀ k ∈ b, k ≤ bmax)
    (few : b.length ≤ nMax) (bits : 1 ≤ m ∧ m ≤ 9)
    (near : (∀ k ∈ b, k < 2 * m) ∨ b.length < 2 ^ m) (aligned : state.freeMemPtr % 4 = 0)
    (memory : 0 < state.freeMemPtr) (space : state.freeMemPtr + buildBytes < state.freeMemEndPtr)
    (used : b.getD symbol 0 ≠ 0) (known : (symbolOperation s d e symbol).1 ≤ 16)
    (reads : ReadsAt state position) (spells : Spells state.inputData position (wordOf b symbol))
    (room : position + (wordOf b symbol).length + 9 ≤ 8 * state.inputLen)
    (enough : (wordOf b symbol).length < fuel) :
    (do
      let built ← huftBuild b s d e m
      let found ← Gzip.lookUp fuel built.t built.m
      match found with
      | none => return none
      | some t =>
        dumpBits t.b
        return some t).Ensures state (fun _ => False) fun found after =>
      ∃ t, found = some t ∧ t.e = (symbolOperation s d e symbol).1 ∧
        t.n = (symbolOperation s d e symbol).2 ∧
        ReadsAt after (position + (wordOf b symbol).length) := by
  apply (huftBuild_usable usable bounded few bits near aligned memory space).andThen
  rintro built s₁ ⟨-, -, decodes, -, -, same₁, -⟩
  have inputData := inputData_of_unbuilt same₁
  have inputLen := inputLen_of_unbuilt same₁
  have reads₁ := reads.of_unbuilt same₁
  apply (decodes.lookUp used known reads₁ rfl (by rwa [inputData]) (by rwa [inputLen])
    enough).andThen
  rintro _ s₂ ⟨t, rfl, operation, number, -, held, position', reads₂, place⟩
  apply (dumpBits_reads reads₂ held).andThen
  rintro _ s₃ ⟨reads₃, -, -⟩
  rw [place] at reads₃
  exact ⟨t, rfl, operation, number, reads₃⟩

/-- The input holds two bits, and there is memory. -/
def twoBits : State :=
  { handedOver (packed [true, true]) 8 fun _ => 0 with
    insize := 8, freeMemPtr := 0x01000000, freeMemEndPtr := 0x02000000 }

-- The program is not run to compare what it ensures.
attribute [local irreducible] Program.Ensures

theorem huftBuild_lookUp_twoBits :
    (do
      let built ← huftBuild [2, 1, 2] 3 [] [] 7
      let found ← Gzip.lookUp 3 built.t built.m
      match found with
      | none => return none
      | some t =>
        dumpBits t.b
        return some t).Ensures twoBits (fun _ => False) fun found after =>
      ∃ t, found = some t ∧ t.e = 16 ∧ t.n = 2 ∧ ReadsAt after 2 := by
  have usable : Usable [2, 1, 2] := .inl (by decide)
  have used : [2, 1, 2].getD 2 0 ≠ 0 := by decide
  have known : (symbolOperation 3 [] [] 2).1 ≤ 16 := by decide
  have spells : Spells twoBits.inputData 0 (wordOf [2, 1, 2] 2) := by
    rw [show wordOf [2, 1, 2] 2 = [true, true] by decide]
    exact spells_packed [true, true]
  have reads : ReadsAt twoBits 0 := ⟨rfl, rfl, rfl, Nat.zero_le _⟩
  exact huftBuild_lookUp usable (by decide) (by decide) ⟨by decide, by decide⟩ (.inl (by decide))
    (by decide) (by decide) (by decide) used known reads spells (by decide) (by decide)

end Built

end Cromwell.Gzip
