import Cromwell.Gzip.Decoding

/-!
# Reading blocks back

A stored block is copied from the next byte boundary on. A block with the fixed code is
read with the tables for it, and a block with codes of its own starts with their lengths,
from which the tables are built.
-/

namespace Cromwell.Gzip

open Cromwell.Std Program

/-- The state without what reading a block changes. -/
def State.unpassed (s : State) : State := s.undecoded.unbuilt

section Frame

variable {s s' : State} {position : Nat} {history : List Byte}

/-- What decoding leaves alone is left alone. -/
theorem unpassed_of_undecoded (same : s'.undecoded = s.undecoded) : s'.unpassed = s.unpassed :=
  congrArg State.unbuilt same

/-- So is what making tables leaves alone. -/
theorem unpassed_of_unbuilt (same : s'.unbuilt = s.unbuilt) : s'.unpassed = s.unpassed := by
  have both := congrArg State.undecoded same
  exact both

/-- The input is among it. -/
theorem inputData_of_unpassed (same : s'.unpassed = s.unpassed) : s'.inputData = s.inputData := by
  have field := congrArg State.inputData same
  exact field

/-- So is its length. -/
theorem inputLen_of_unpassed (same : s'.unpassed = s.unpassed) : s'.inputLen = s.inputLen := by
  have field := congrArg State.inputLen same
  exact field

/-- Decoding takes no memory. -/
theorem freeMemPtr_of_undecoded (same : s'.undecoded = s.undecoded) :
    s'.freeMemPtr = s.freeMemPtr := by
  have field := congrArg State.freeMemPtr same
  exact field

/-- The end of the memory never moves. -/
theorem freeMemEndPtr_of_unpassed (same : s'.unpassed = s.unpassed) :
    s'.freeMemEndPtr = s.freeMemEndPtr := by
  have field := congrArg State.freeMemEndPtr same
  exact field

/-- What puts bytes out does not see the tables. -/
theorem Ready.of_unbuilt (ready : Ready history s) (same : s'.unbuilt = s.unbuilt) :
    Ready history s' := by
  obtain ⟨flushed, ⟨holds, length, room, aligned, output⟩, short⟩ := ready
  have holds : WindowHolds wsize s.unbuilt.window history := holds
  have length : history.length = wsize + flushed + s.unbuilt.outcnt := length
  have room : s.unbuilt.outcnt ≤ wsize := room
  have output : s.unbuilt.output = (history.take (wsize + flushed)).drop wsize := output
  have short : s.unbuilt.outcnt < wsize := short
  rw [← same] at holds length room output short
  exact ⟨flushed, ⟨holds, length, room, aligned, output⟩, short⟩

/-- Making tables moves nothing in input or output. -/
theorem StandsAt.of_unbuilt (stands : StandsAt s position history)
    (same : s'.unbuilt = s.unbuilt) : StandsAt s' position history :=
  ⟨stands.reads.of_unbuilt same, stands.ready.of_unbuilt same⟩

end Frame

-- A program is not run where its parts are compared.
attribute [local irreducible] Program.Ensures

section Stored

variable {s : State} {position : Nat} {history : List Byte}

/-- The bytes of a stored block. -/
theorem storedBytes_stands {bytes : List Byte} (stands : StandsAt s position history)
    (spells : Spells s.inputData position (bytes.flatMap byteBits))
    (room : position + 8 * bytes.length ≤ 8 * s.inputLen) :
    (storedBytes bytes.length).Ensures s (fun _ => False) fun _ after =>
      StandsAt after (position + 8 * bytes.length) (history ++ bytes) ∧
        after.undecoded = s.undecoded := by
  induction bytes generalizing s position history with
  | nil =>
      rw [List.length_nil, storedBytes, ensures_pure, List.append_nil]
      exact ⟨stands, rfl⟩
  | cons byte bytes ih =>
      rw [List.length_cons] at room ⊢
      rw [List.flatMap_cons, spells_append, length_byteBits] at spells
      rw [storedBytes]
      apply (needBits_reads stands.reads (by omega : 8 ≤ 16) (by omega)).andThen
      rintro _ s₁ ⟨reads₁, held₁, same₁⟩
      have value : UInt8.ofNat s₁.bb = byte := by
        have low : fieldAt s₁.inputData position s₁.bk % 2 ^ 8 = fieldAt s₁.inputData position 8 :=
        fieldAt_mod position held₁
        have field := spells.1.fieldAt
        rw [length_byteBits, bitsValue_byteBits] at field
        rw [← reads₁.buffer, inputData_of_unread same₁, field] at low
        apply UInt8.toNat_inj.mp
        rw [UInt8.toNat_ofNat']
        exact low
      rw [ensures_bind, ensures_look, value]
      apply (putByte_ready (stands.ready.of_unread same₁) byte).andThen
      rintro _ s₂ ⟨ready₂, same₂⟩
      have reads₂ := reads₁.of_unwritten same₂
      have bits : s₂.bk = s₁.bk := by
        have field := congrArg State.bk same₂
        exact field
      apply (dumpBits_reads reads₂ (by omega : 8 ≤ s₂.bk)).andThen
      rintro _ s₃ ⟨reads₃, -, same₃⟩
      have same : s₃.undecoded = s.undecoded := (undecoded_of_unread same₃).trans
        ((undecoded_of_unwritten same₂).trans (undecoded_of_unread same₁))
      apply (ih ⟨reads₃, ready₂.of_unread same₃⟩
        (by rw [inputData_of_undecoded same]; exact spells.2)
        (by rw [inputLen_of_undecoded same]; omega)).mono (fun _ none => none)
      rintro _ after ⟨stands', same'⟩
      have total : position + 8 + 8 * bytes.length = position + 8 * (bytes.length + 1) := by omega
      rw [total, List.append_assoc] at stands'
      exact ⟨stands', same'.trans same⟩

/-- Sixteen bits at once. -/
theorem lookAt_sixteen {number : Nat} (reads : ReadsAt s position) (held : 16 ≤ s.bk)
    (bounded : number < 2 ^ 16) (spells : Spells s.inputData position (numberBits 16 number)) :
    s.bb % 2 ^ 16 = number := by
  rw [reads.buffer, fieldAt_mod position held]
  exact spells.number bounded

/-- A stored block. -/
theorem inflateStored_stands {padding : List Bool} {bytes : List Byte}
    (stands : StandsAt s position history) (short : padding.length < 8)
    (boundary : (position + padding.length) % 8 = 0) (few : bytes.length < 2 ^ 16)
    (spells : Spells s.inputData position (Block.stored padding bytes).body)
    (room : position + (Block.stored padding bytes).body.length ≤ 8 * s.inputLen) :
    inflateStored.Ensures s (fun _ => False) fun result after => result = 0 ∧
      StandsAt after (position + (Block.stored padding bytes).body.length) (history ++ bytes) ∧
      after.undecoded = s.undecoded := by
  have length : (Block.stored padding bytes).body.length =
      padding.length + (16 + (16 + 8 * bytes.length)) := by
    simp only [Block.body, List.length_append, length_numberBits,
      length_flatMap_byteBits]
  rw [length] at room ⊢
  rw [Block.body, spells_append, spells_append, spells_append, length_numberBits,
    length_numberBits] at spells
  obtain ⟨-, count, complement, content⟩ := spells
  have place := stands.reads.place
  have boundaryBits : s.bk % 8 = padding.length := by omega
  unfold inflateStored
  rw [ensures_bind, ensures_look, boundaryBits]
  apply (dumpBits_reads stands.reads (by omega)).andThen
  rintro _ s₁ ⟨reads₁, -, same₁⟩
  have input₁ := inputData_of_unread same₁
  have inputLen₁ := inputLen_of_unread same₁
  have more₁ : position + padding.length + 16 ≤ 8 * s₁.inputLen := by omega
  apply (needBits_reads reads₁ (Nat.le_refl 16) more₁).andThen
  rintro _ s₂ ⟨reads₂, held₂, same₂⟩
  have input₂ := (inputData_of_unread same₂).trans input₁
  apply Ensures.ofLook
  intro n read₂
  rw [lookAt_sixteen reads₂ held₂ few (by rwa [input₂])] at read₂
  apply (dumpBits_reads reads₂ held₂).andThen
  rintro _ s₃ ⟨reads₃, -, same₃⟩
  have same₃ := same₃.trans (same₂.trans same₁)
  have inputLen₃ := inputLen_of_unread same₃
  apply (needBits_reads reads₃ (Nat.le_refl 16) (by omega)).andThen
  rintro _ s₄ ⟨reads₄, held₄, same₄⟩
  have same₄ := same₄.trans same₃
  have stored₄ : s₄.bb % 2 ^ 16 = 0xffff - bytes.length :=
    lookAt_sixteen reads₄ held₄ (by omega) (by rwa [inputData_of_unread same₄])
  apply Ensures.ofLook
  intro complement read₄
  rw [if_neg (by omega), read₂]
  apply (dumpBits_reads reads₄ held₄).andThen
  rintro _ s₅ ⟨reads₅, -, same₅⟩
  have same₅ := same₅.trans same₄
  apply (storedBytes_stands ⟨reads₅, stands.ready.of_unread same₅⟩
    (by rwa [inputData_of_unread same₅]) (by rw [inputLen_of_unread same₅]; omega)).andThen
  rintro _ s₆ ⟨stands₆, same₆⟩
  have total : position + padding.length + 16 + 16 + 8 * bytes.length =
      position + (padding.length + (16 + (16 + 8 * bytes.length))) := by omega
  rw [total] at stands₆
  rw [ensures_pure]
  exact ⟨rfl, stands₆, same₆.trans (undecoded_of_unread same₅)⟩

end Stored

/-! ## Blocks with the fixed code -/

/-- There is memory for the tables of a block. -/
structure Roomy (s : State) : Prop where
  aligned : s.freeMemPtr % 4 = 0
  positive : 0 < s.freeMemPtr
  room : s.freeMemPtr + 3 * buildBytes < s.freeMemEndPtr

section Fixed

variable {s : State} {position fuel : Nat} {history data : List Byte}

/-- The fixed lengths fill the code space. -/
theorem fixedLengths_usable : Usable fixedLengths := by
  left
  have all : fixedLengths.filter (· ≠ 0) = fixedLengths := by
    apply List.filter_eq_self.mpr
    intro length member
    simp only [fixedLengths, List.mem_append, List.mem_replicate] at member
    simp
    omega
  rw [shareOf, all, fixedLengths, CodeTree.weight_append, CodeTree.weight_append,
    CodeTree.weight_append, CodeTree.weight_replicate, CodeTree.weight_replicate,
    CodeTree.weight_replicate, CodeTree.weight_replicate]
  rfl

/-- There are as many as a table may have. -/
theorem length_fixedLengths : fixedLengths.length = nMax := by
  simp only [fixedLengths, List.length_append, List.length_replicate]
  rfl

/-- They are at most nine bits. -/
theorem fixedLengths_bounded : ∀ length ∈ fixedLengths, length ≤ 9 := by
  intro length member
  simp only [fixedLengths, List.mem_append, List.mem_replicate] at member
  omega

/-- The distances are five bits. -/
theorem fixedDistances_bounded : ∀ length ∈ fixedDistances, length ≤ 5 := by
  intro length member
  simp only [fixedDistances, List.mem_replicate] at member
  omega

/-- Two of the 32 distances are not used. -/
theorem fixedDistances_weight :
    CodeTree.weight 5 (lengthsOf (fun k => fixedDistances.count k) 5) = 30 := by
  simp [lengthsOf, fixedDistances]

/-- A block with the fixed code. -/
theorem inflateFixed_stands {tokens : List Token} (stands : StandsAt s position history)
    (roomy : Roomy s) (fits : (Block.fixed tokens).Fits position data)
    (spells : Spells s.inputData position (Block.fixed tokens).body)
    (room : position + (Block.fixed tokens).body.length + 9 ≤ 8 * s.inputLen)
    (enough : 259 ≤ fuel) (passes : tokens.length < fuel) :
    (inflateFixed fuel).Ensures s (fun _ => False) fun result after => result = 0 ∧
      StandsAt after (position + (Block.fixed tokens).body.length) (expandAll history tokens) ∧
      after.unpassed = s.unpassed := by
  obtain ⟨aligned, positive, memory⟩ := roomy
  unfold inflateFixed
  apply (huftBuild_usable fixedLengths_usable (fun k member => by
      have bound := fixedLengths_bounded k member
      unfold bmax
      omega) (Nat.le_of_eq length_fixedLengths) ⟨by omega, by omega⟩
    (.inl fun k member => by
      have bound := fixedLengths_bounded k member
      omega) aligned positive (by omega)).andThen
  rintro literals s₁ ⟨result, -, decodes, upper, aligned₁, same₁, -⟩
  have ended := freeMemEndPtr_of_unpassed (unpassed_of_unbuilt same₁)
  have low : s.freeMemPtr ≤ s₁.freeMemPtr := by
    obtain ⟨-, -, -, -, -, -, -, -, above, inside, -⟩ := decodes
    omega
  rw [result, if_neg (not_not.mpr rfl)]
  apply (huftBuild_holds (g := 5) (by simp [fixedDistances]) (by omega) fixedDistances_bounded
    (by decide) ⟨by omega, by omega⟩ (by rw [fixedDistances_weight]; omega)
    (by rw [spare, fixedDistances_weight]; simp [fixedDistances]) (.inl (by omega)) aligned₁
    (by omega) (by omega)).andThen
  rintro distances s₂ ⟨result', -, decodes', -, -, same₂, kept⟩
  have incomplete : ¬ distances.result > 1 := by
    rw [result', spare, fixedDistances_weight]
    decide
  rw [if_neg incomplete]
  have same := (unpassed_of_unbuilt same₂).trans (unpassed_of_unbuilt same₁)
  unfold inflateCodes
  apply (inflateCodes_tokens ((stands.of_unbuilt same₁).of_unbuilt same₂) (decodes.kept kept)
    (fun _ => ⟨_, _, decodes'⟩)
    (fun k member => by
      have bound := fixedLengths_bounded k member
      unfold bmax
      omega)
    (fun k member => by
      have bound := fixedDistances_bounded k member
      unfold bmax
      omega) fits.2 (by decide) (by rwa [inputData_of_unpassed same])
    (by rwa [inputLen_of_unpassed same]) enough passes).andThen
  rintro _ s₃ ⟨rfl, stands₃, same₃⟩
  rw [if_neg (not_not.mpr rfl), ensures_pure]
  exact ⟨rfl, stands₃, (unpassed_of_undecoded same₃).trans same⟩

end Fixed

end Cromwell.Gzip
