import Cromwell.Gzip.DynamicBlocks

/-!
# Reading a row of blocks back

`inflate` reads blocks up to the last one, puts back the bytes it has read too far, and
flushes the window. What it has put out is what the blocks stand for, whatever was in
the window before.
-/

namespace Cromwell.Gzip

open Cromwell.Std Program

/-! ## Data without what was before it -/

section Data

variable {history : List Byte}

/-- A piece that reaches no further back than the data depends on the data alone. -/
theorem Token.expand_append {token : Token} (before : List Byte)
    (reaches : token.Reaches history) :
    token.expand (before ++ history) = before ++ token.expand history := by
  cases token with
  | literal byte => exact List.append_assoc _ _ _
  | copied copy => exact copyBack_append copy.back copy.count reaches

theorem expandAll_append {tokens : List Token} (before : List Byte)
    (reach : AllReach history tokens) :
    expandAll (before ++ history) tokens = before ++ expandAll history tokens := by
  induction tokens generalizing history with
  | nil => rfl
  | cons token tokens ih =>
      rw [expandAll, List.foldl_cons, token.expand_append before reach.1]
      exact ih reach.2

theorem Block.expand_append {block : Block} {position : Nat} (before : List Byte)
    (fits : block.Fits position history) :
    block.expand (before ++ history) = before ++ block.expand history := by
  cases block with
  | stored padding bytes => exact List.append_assoc _ _ _
  | fixed tokens => exact expandAll_append before fits.1
  | dynamic header tokens => exact expandAll_append before fits.1

theorem expandBlocks_append {blocks : List Block} {position : Nat} (before : List Byte)
    (fit : AllFit position history blocks) :
    expandBlocks (before ++ history) blocks = before ++ expandBlocks history blocks := by
  induction blocks generalizing history position with
  | nil => rfl
  | cons block blocks ih =>
      rw [expandBlocks, List.foldl_cons, block.expand_append before fit.1]
      exact ih fit.2

end Data

/-! ## Bits enough -/

section Lengths

theorem length_le_flatMap {α : Type} {bits : α → List Bool} {items : List α}
    (some : ∀ item ∈ items, 1 ≤ (bits item).length) :
    items.length ≤ (items.flatMap bits).length := by
  induction items with
  | nil => exact Nat.le_refl 0
  | cons item items ih =>
      have rest := ih fun item member => some item (List.mem_cons_of_mem _ member)
      have first := some item List.mem_cons_self
      rw [List.flatMap_cons, List.length_append, List.length_cons]
      omega

theorem Token.length_bits {lb db : List Nat} {token : Token} (coded : token.Coded lb db) :
    1 ≤ (token.bits lb db).length := by
  cases token with
  | literal byte =>
      rw [Token.bits, length_wordOf]
      exact Nat.pos_of_ne_zero coded
  | copied copy =>
      have positive := Nat.pos_of_ne_zero coded.1
      rw [Token.bits, List.length_append, length_wordOf]
      omega

theorem LengthItem.length_bits {cb : List Nat} {item : LengthItem}
    (coded : cb.getD item.symbol 0 ≠ 0) : 1 ≤ (item.bits cb).length := by
  have positive := Nat.pos_of_ne_zero coded
  rw [LengthItem.bits, List.length_append, length_wordOf]
  omega

theorem tokens_length_le {lb db : List Nat} {tokens : List Token}
    (coded : ∀ token ∈ tokens, token.Coded lb db) :
    tokens.length ≤ (tokensBits lb db tokens).length := by
  have few : tokens.length ≤ (tokens.flatMap (Token.bits lb db)).length :=
    length_le_flatMap fun token member => Token.length_bits (coded token member)
  rw [tokensBits, List.length_append]
  omega

theorem items_length_le (header : Header) : header.items.length ≤ header.bits.length := by
  have few : header.items.length ≤
      (header.items.flatMap (LengthItem.bits (lengthCode header.order))).length :=
    length_le_flatMap fun item member => LengthItem.length_bits (header.itemsCoded item member)
  simp only [Header.bits, List.length_append]
  omega

theorem blocksBits_cons (block next : Block) (rest : List Block) :
    blocksBits (block :: next :: rest) = block.bits 0 ++ blocksBits (next :: rest) := rfl

theorem Block.length_bits (last : Nat) (block : Block) :
    (block.bits last).length = 3 + block.body.length := by
  simp [Block.bits]
  omega

end Lengths

/-! ## Blocks one after another -/

-- A program is not run where its parts are compared.
attribute [local irreducible] Program.Ensures

section Blocks

variable {s : State} {position fuel : Nat} {history data : List Byte}

/-- A block is read. -/
theorem inflateBlock_stands {block : Block} {last : Nat} (flag : last < 2)
    (stands : StandsAt s position history) (roomy : Roomy s) (fits : block.Fits position data)
    (spells : Spells s.inputData position (block.bits last))
    (room : position + (block.bits last).length + 9 ≤ 8 * s.inputLen)
    (enough : 8 * s.inputLen + 259 ≤ fuel) :
    (inflateBlock fuel).Ensures s (fun _ => False) fun ended after => ended = (last, 0) ∧
      StandsAt after (position + (block.bits last).length) (block.expand history) ∧
      after.unpassed = s.unpassed := by
  rw [block.length_bits] at room ⊢
  rw [Block.bits, spells_append, spells_append, length_numberBits, length_numberBits] at spells
  obtain ⟨flagBit, kindBits, body⟩ := spells
  have kind : block.kind < 2 ^ 2 := by
    cases block with
    | stored padding bytes => exact (by decide : 0 < 4)
    | fixed tokens => exact (by decide : 1 < 4)
    | dynamic header tokens => exact (by decide : 2 < 4)
  unfold inflateBlock
  apply (takeBits_number stands (by omega) (by omega : last < 2 ^ 1) flagBit (by omega)).andThen
  rintro e s₁ ⟨readFlag, stands₁, same₁⟩
  apply (takeBits_number stands₁ (by omega) kind
    (by rw [inputData_of_undecoded same₁]; exact kindBits)
    (by rw [inputLen_of_undecoded same₁]; omega)).andThen
  rintro t s₂ ⟨readKind, stands₂, same₂⟩
  have same₂ := same₂.trans same₁
  have input₂ := inputData_of_undecoded same₂
  have inputLen₂ := inputLen_of_undecoded same₂
  have passed₂ := unpassed_of_undecoded same₂
  have roomy₂ : Roomy s₂ := by
    have pointer := freeMemPtr_of_undecoded same₂
    have ended := freeMemEndPtr_of_unpassed passed₂
    obtain ⟨aligned, positive, memory⟩ := roomy
    exact ⟨by rwa [pointer], by rwa [pointer], by rwa [pointer, ended]⟩
  rw [Nat.add_assoc position] at stands₂ body
  rw [← Nat.add_assoc] at room ⊢
  cases block with
  | stored padding bytes =>
      have kind : t = 0 := readKind
      rw [if_neg (by omega), if_pos kind]
      obtain ⟨short, boundary, few⟩ := fits
      apply (inflateStored_stands stands₂ short boundary few (by rwa [input₂])
        (by rw [inputLen₂]; omega)).andThen
      rintro _ s₃ ⟨rfl, stands₃, same₃⟩
      rw [ensures_pure]
      exact ⟨by rw [readFlag], stands₃, unpassed_of_undecoded (same₃.trans same₂)⟩
  | fixed tokens =>
      have kind : t = 1 := readKind
      have short := tokens_length_le fits.2
      have within : tokens.length < fuel := by
        rw [Block.body] at room
        omega
      rw [if_neg (by omega), if_neg (by omega), if_pos kind]
      apply (inflateFixed_stands stands₂ roomy₂ fits (by rwa [input₂])
        (by rw [inputLen₂]; omega) (by omega) within).andThen
      rintro _ s₃ ⟨rfl, stands₃, passed₃⟩
      rw [ensures_pure]
      exact ⟨by rw [readFlag], stands₃, passed₃.trans passed₂⟩
  | dynamic header tokens =>
      have kind : t = 2 := readKind
      have short := tokens_length_le fits.2
      have fewItems := items_length_le header
      have within : header.items.length < fuel ∧ tokens.length < fuel := by
        rw [Block.body, List.length_append] at room
        omega
      rw [if_pos kind]
      apply (inflateDynamic_stands stands₂ roomy₂ fits (by rwa [input₂])
        (by rw [inputLen₂]; omega) (by omega) within.1 within.2).andThen
      rintro _ s₃ ⟨rfl, stands₃, passed₃⟩
      rw [ensures_pure]
      exact ⟨by rw [readFlag], stands₃, passed₃.trans passed₂⟩

/-- The state without what reading blocks changes: the memory is given back. -/
theorem roomy_of_unpassed {s' : State} (roomy : Roomy s) (same : s'.unpassed = s.unpassed) :
    Roomy { s' with freeMemPtr := s.freeMemPtr } := by
  have ended := freeMemEndPtr_of_unpassed same
  exact ⟨roomy.aligned, roomy.positive, by rw [ended]; exact roomy.room⟩

/-- What stands in the input does not depend on the memory. -/
theorem StandsAt.released (stands : StandsAt s position history) (freeMemPtr : Nat) :
    StandsAt { s with freeMemPtr } position history := stands.of_unbuilt rfl

/-- A pass over a block. -/
theorem inflatePass_stands {block : Block} {last : Nat} (flag : last < 2)
    (stands : StandsAt s position history) (roomy : Roomy s) (fits : block.Fits position data)
    (spells : Spells s.inputData position (block.bits last))
    (room : position + (block.bits last).length + 9 ≤ 8 * s.inputLen)
    (enough : 8 * s.inputLen + 259 ≤ fuel) :
    (inflatePass fuel).Ensures s (fun _ => False) fun ended after =>
      ended = (if last = 0 then .next () else .leave 0) ∧ Roomy after ∧
      StandsAt after (position + (block.bits last).length) (block.expand history) ∧
      after.unpassed = s.unpassed := by
  unfold inflatePass gzipMark
  rw [ensures_bind, ensures_look]
  apply (inflateBlock_stands flag stands roomy fits spells room enough).andThen
  rintro _ s₁ ⟨rfl, stands₁, passed₁⟩
  dsimp only
  rw [ensures_bind, gzipRelease, ensures_alter, if_neg (not_not.mpr rfl)]
  have facts : Roomy { s₁ with freeMemPtr := s.freeMemPtr } ∧
      StandsAt { s₁ with freeMemPtr := s.freeMemPtr } (position + (block.bits last).length)
        (block.expand history) ∧
      ({ s₁ with freeMemPtr := s.freeMemPtr } : State).unpassed = s.unpassed :=
    ⟨roomy_of_unpassed roomy passed₁, stands₁.released _, passed₁⟩
  split
  · rw [ensures_pure]
    exact ⟨rfl, facts⟩
  · rw [ensures_pure]
    exact ⟨rfl, facts⟩

/-- All blocks are read. -/
theorem inflateBlocks_stand {blocks : List Block} {passes : Nat} (some : blocks ≠ [])
    (stands : StandsAt s position history) (roomy : Roomy s)
    (fit : AllFit position data blocks) (spells : Spells s.inputData position (blocksBits blocks))
    (room : position + (blocksBits blocks).length + 9 ≤ 8 * s.inputLen)
    (enough : 8 * s.inputLen + 259 ≤ fuel) (passesEnough : blocks.length ≤ passes) :
    (Program.loop (fun _ => inflatePass fuel) passes ()).Ensures s (fun _ => False)
      fun result after => result = 0 ∧
        StandsAt after (position + (blocksBits blocks).length) (expandBlocks history blocks) ∧
        after.unpassed = s.unpassed := by
  induction blocks generalizing s position history data passes with
  | nil => exact absurd rfl some
  | cons block blocks ih =>
      obtain ⟨passes, rfl⟩ : ∃ more, passes = more + 1 :=
        ⟨passes - 1, by rw [List.length_cons] at passesEnough; omega⟩
      have fits : block.Fits position data := fit.1
      rw [Program.loop]
      cases blocks with
      | nil =>
          apply (inflatePass_stands (by decide : 1 < 2) stands roomy fits spells room
            enough).andThen
          rintro _ s₁ ⟨rfl, -, stands₁, passed₁⟩
          rw [if_neg Nat.one_ne_zero, ensures_pure]
          exact ⟨rfl, stands₁, passed₁⟩
      | cons next blocks =>
          rw [blocksBits_cons, spells_append] at spells
          rw [blocksBits_cons, List.length_append, ← Nat.add_assoc] at room ⊢
          apply (inflatePass_stands (by decide : 0 < 2) stands roomy fits spells.1 (by omega)
            enough).andThen
          rintro _ s₁ ⟨rfl, roomy₁, stands₁, passed₁⟩
          have inputLen₁ := inputLen_of_unpassed passed₁
          rw [if_pos rfl]
          apply (ih (List.cons_ne_nil _ _) stands₁ roomy₁ fit.2
            (by rw [inputData_of_unpassed passed₁]; exact spells.2) (by rwa [inputLen₁])
            (by rwa [inputLen₁]) (by rw [List.length_cons] at passesEnough; omega)).mono
            (fun _ none => none)
          rintro result after ⟨done, stands', passed'⟩
          exact ⟨done, stands', passed'.trans passed₁⟩

end Blocks

/-! ## The whole row -/

section Inflate

variable {s : State} {position fuel : Nat} {blocks : List Block}

/-- At the start the window holds whatever was in it. -/
theorem standsAt_start (opened : s.insize = s.inputLen) (output : s.output = []) :
    StandsAt { s with outcnt := 0, bk := 0, bb := 0 } (8 * s.inptr) (s.window.bytes 0 wsize) := by
  refine ⟨⟨opened, rfl, rfl, Nat.zero_le _⟩, 0, ⟨?_, ?_, Nat.zero_le _, Nat.dvd_zero _, ?_⟩, ?_⟩
  · intro m inside _
    rw [Memory.length_bytes] at inside
    rw [Memory.getElem_bytes, Nat.zero_add, Nat.mod_eq_of_lt inside]
  · exact Memory.length_bytes _ _ _
  · dsimp only
    rw [output, List.take_of_length_le (by rw [Memory.length_bytes]; omega),
      List.drop_eq_nil_of_le (by rw [Memory.length_bytes])]
  · exact (by decide : 0 < wsize)

/-- Bytes that were read too far are put back. -/
theorem undo_reads (reads : ReadsAt s position) (enough : 3 ≤ fuel) :
    (Program.loop (fun _ => undoPass) fuel ()).Ensures s (fun _ => False) fun _ after =>
      after.inptr = (position + 7) / 8 ∧ after.unread = s.unread := by
  apply loop_ensures fun fuel _ state => 8 * state.inptr = position + state.bk ∧
    state.bk < 8 * fuel ∧ state.unread = s.unread
  · rintro _ state ⟨-, none, -⟩
    omega
  · rintro fuel _ state ⟨place, bound, same⟩
    unfold undoPass
    rw [ensures_bind, ensures_look]
    split
    · next more =>
      rw [ensures_bind, ensures_alter, ensures_pure]
      have back : 8 * (state.inptr - 1) = position + (state.bk - 8) := by omega
      have less : state.bk - 8 < 8 * fuel := by omega
      exact ⟨back, less, same⟩
    · next few =>
      have place' : state.inptr = (position + 7) / 8 := by omega
      rw [ensures_pure]
      exact ⟨place', same⟩
  · have small := reads.small
    exact ⟨reads.place, by omega, rfl⟩

/-- `inflate` puts out what the blocks stand for, and stands behind the last byte of them. -/
theorem inflate_blocks (opened : s.insize = s.inputLen) (output : s.output = [])
    (roomy : Roomy s) (some : blocks ≠ []) (fit : AllFit (8 * s.inptr) [] blocks)
    (spells : Spells s.inputData (8 * s.inptr) (blocksBits blocks))
    (room : 8 * s.inptr + (blocksBits blocks).length + 9 ≤ 8 * s.inputLen)
    (enough : 8 * s.inputLen + 259 ≤ fuel) :
    (inflate fuel).Ensures s (fun _ => False) fun result after => result = 0 ∧
      after.output = expandBlocks [] blocks ∧
      after.inptr = (8 * s.inptr + (blocksBits blocks).length + 7) / 8 ∧
      after.unpassed = s.unpassed := by
  have few : blocks.length ≤ (blocksBits blocks).length := by
    clear fit spells room output some
    induction blocks with
    | nil => exact Nat.le_refl 0
    | cons block blocks ih =>
        cases blocks with
        | nil =>
            have bits := block.length_bits 1
            rw [blocksBits, List.length_singleton]
            omega
        | cons next blocks =>
            have bits := block.length_bits 0
            rw [blocksBits_cons, List.length_append, List.length_cons]
            omega
  have start := standsAt_start opened output
  have roomy₀ : Roomy { s with outcnt := 0, bk := 0, bb := 0 } :=
    ⟨roomy.aligned, roomy.positive, roomy.room⟩
  unfold inflate
  rw [ensures_bind, ensures_alter]
  apply (inflateBlocks_stand some start roomy₀ fit spells room enough (by omega)).andThen
  rintro _ s₁ ⟨rfl, stands₁, passed₁⟩
  rw [if_neg (not_not.mpr rfl)]
  apply (undo_reads stands₁.reads (by omega)).andThen
  rintro _ s₂ ⟨place₂, same₂⟩
  obtain ⟨flushed, written, -⟩ := stands₁.ready.of_unread same₂
  apply (flushWindow_output written).andThen
  rintro _ s₃ ⟨output₃, -, -, same₃⟩
  rw [ensures_pure]
  have data := expandBlocks_append (s.window.bytes 0 wsize) fit
  rw [List.append_nil] at data
  have kept : s₃.inptr = s₂.inptr := by
    have field := congrArg State.inptr same₃
    exact field
  refine ⟨rfl, ?_, ?_, ?_⟩
  · rw [output₃, data, List.drop_append_of_le_length (by rw [Memory.length_bytes]),
      List.drop_eq_nil_of_le (by rw [Memory.length_bytes]), List.nil_append]
  · rw [kept, place₂]
  · exact (unpassed_of_undecoded ((undecoded_of_unwritten same₃).trans
      (undecoded_of_unread same₂))).trans passed₁

end Inflate

end Cromwell.Gzip
