import Cromwell.Gzip.Blocks

/-!
# Reading the codes of a block

A block with codes of its own gives the lengths of a code for lengths, then in this code
the lengths of the other two, and then its pieces. What is read is what the block says.
-/

namespace Cromwell.Gzip

open Cromwell.Std Program

-- A program is not run where its parts are compared.
attribute [local irreducible] Program.Ensures

section Order

variable {s : State} {position : Nat} {history : List Byte}

/-- The lengths that are given in another order come to their places, the rest is 0. -/
theorem readBorder_stands {places order : List Nat} (distinct : places.Nodup)
    (stands : StandsAt s position history) (few : order.length ≤ places.length)
    (bound : ∀ length ∈ order, length < 8)
    (spells : Spells s.inputData position (order.flatMap (numberBits 3)))
    (room : position + 3 * order.length ≤ 8 * s.inputLen) (ll : Nat → Nat) :
    (readBorder order.length places ll).Ensures s (fun _ => False) fun ll' after =>
      (∀ symbol, ll' symbol =
        if symbol ∈ places then order.getD (places.idxOf symbol) 0 else ll symbol) ∧
      StandsAt after (position + 3 * order.length) history ∧ after.undecoded = s.undecoded := by
  induction places generalizing order s position ll with
  | nil =>
      obtain rfl : order = [] := List.length_eq_zero_iff.mp (Nat.le_zero.mp few)
      rw [readBorder, ensures_pure]
      exact ⟨fun symbol => by simp, stands, rfl⟩
  | cons j places ih =>
      obtain ⟨other, rest⟩ := List.nodup_cons.mp distinct
      -- What is put at the first place stays there.
      have placed : ∀ (value : Nat) (order' : List Nat) (ll' : Nat → Nat),
          (∀ symbol, ll' symbol = if symbol ∈ places then order'.getD (places.idxOf symbol) 0
            else Function.update ll j value symbol) →
          ∀ symbol, ll' symbol =
            if symbol ∈ j :: places then (value :: order').getD ((j :: places).idxOf symbol) 0
            else ll symbol := by
        intro value order' ll' values symbol
        rw [values symbol]
        by_cases here : symbol = j
        · subst here
          simp [other]
        · rw [Function.update_of_ne here, List.idxOf_cons_ne places (Ne.symm here)]
          simp [here]
      cases order with
      | nil =>
          rw [List.length_nil, readBorder]
          apply (ih rest stands (Nat.zero_le _) bound spells room _).mono (fun _ none => none)
          rintro ll' after ⟨values, stands', same⟩
          refine ⟨fun symbol => ?_, stands', same⟩
          have value := placed 0 [] ll' values symbol
          rw [value]
          cases (j :: places).idxOf symbol with
          | zero => simp
          | succ _ => simp
      | cons length order =>
          rw [List.length_cons] at few room ⊢
          rw [List.flatMap_cons, spells_append, length_numberBits] at spells
          rw [readBorder]
          apply (takeBits_number stands (by omega) (bound length List.mem_cons_self) spells.1
            (by omega)).andThen
          rintro _ s₁ ⟨rfl, stands₁, same₁⟩
          apply (ih rest stands₁ (Nat.le_of_succ_le_succ few)
            (fun k member => bound k (List.mem_cons_of_mem _ member))
            (by rw [inputData_of_undecoded same₁]; exact spells.2)
            (by rw [inputLen_of_undecoded same₁]; omega) _).mono (fun _ none => none)
          rintro ll' after ⟨values, stands', same⟩
          have total : position + 3 + 3 * order.length = position + 3 * (order.length + 1) := by
            omega
          rw [total] at stands'
          exact ⟨placed _ order ll' values, stands', same.trans same₁⟩

theorem border_distinct : border.Nodup := by decide

/-- Every length has its place in the order. -/
theorem mem_border {symbol : Nat} (inside : symbol < 19) : symbol ∈ border := by
  have all : ∀ symbol < 19, symbol ∈ border := by decide
  exact all symbol inside

end Order

/-! ## The lengths of the codes -/

/-- Some lengths have been read. -/
structure LengthsRead (lengths : Lengths) (done : List Nat) (last : Nat) : Prop where
  i : lengths.i = done.length
  l : lengths.l = last
  ll : ∀ k < done.length, lengths.ll k = done.getD k 0

section Items

variable {lengths : Lengths} {done : List Nat} {last : Nat}

/-- A run of one length. -/
theorem repeatLength_read (read : LengthsRead lengths done last) (length j : Nat) :
    LengthsRead (repeatLength length j lengths) (done ++ List.replicate j length) last := by
  induction j generalizing lengths done with
  | zero => rwa [List.replicate_zero, List.append_nil, repeatLength]
  | succ j ih =>
      have next : LengthsRead { lengths with
          ll := Function.update lengths.ll lengths.i length, i := lengths.i + 1 }
          (done ++ [length]) last := by
        refine ⟨?_, read.l, ?_⟩
        · rw [List.length_append, List.length_singleton, read.i]
        · intro k inside
          rw [List.length_append, List.length_singleton] at inside
          dsimp only
          rw [read.i]
          rcases Nat.lt_or_eq_of_le (Nat.le_of_lt_succ inside) with before | rfl
          · rw [Function.update_of_ne (by omega), read.ll k before,
              List.getD_append _ _ _ _ before]
          · rw [Function.update_self, List.getD_append_right _ _ _ _ (Nat.le_refl _), Nat.sub_self]
            rfl
      have rest := ih next
      rwa [List.append_assoc, List.singleton_append, ← List.replicate_succ] at rest

/-- At first nothing has been read. -/
theorem lengthsRead_nil (ll : Nat → Nat) : LengthsRead { ll, i := 0, l := 0 } [] 0 :=
  ⟨rfl, rfl, fun k inside => absurd inside (Nat.not_lt_zero k)⟩

/-- Only the last length is set anew. -/
theorem LengthsRead.withLast (read : LengthsRead lengths done last) (l : Nat) :
    LengthsRead { lengths with l } done l :=
  ⟨read.i, rfl, read.ll⟩

end Items

section Lengths

variable {s : State} {position fuel low high n : Nat} {history : List Byte} {cb : List Nat}
  {built : Built} {lengths : Lengths} {done : List Nat} {last : Nat}

theorem LengthItem.symbol_lt (item : LengthItem) : item.symbol < 19 := by
  cases item with
  | single length => exact Nat.lt_of_lt_of_le length.isLt (by decide)
  | again more => exact (by decide : 16 < 19)
  | zeros more => exact (by decide : 17 < 19)
  | manyZeros more => exact (by decide : 18 < 19)

/-- The pass for an item. -/
theorem readLengthsPass_item (stands : StandsAt s position history)
    (decodes : Decodes s.tables low high cb 19 [] [] built) {item : LengthItem}
    (coded : cb.getD item.symbol 0 ≠ 0) (short : cb.getD item.symbol 0 ≤ built.m)
    (spells : Spells s.inputData position (item.bits cb))
    (room : position + (item.bits cb).length + 9 ≤ 8 * s.inputLen)
    (read : LengthsRead lengths done last)
    (fits : done.length + (item.expand last).length ≤ n) :
    (readLengthsPass n built.t built.m lengths).Ensures s (fun _ => False) fun ended after =>
      ∃ lengths', ended = .next lengths' ∧
        LengthsRead lengths' (done ++ item.expand last) (item.next last) ∧
        StandsAt after (position + (item.bits cb).length) history ∧
        after.undecoded = s.undecoded := by
  have bits : built.m ≤ 9 := by
    obtain ⟨-, -, -, -, -, -, -, bits, -⟩ := decodes
    exact bits
  have operation : symbolOperation 19 [] [] item.symbol = (16, item.symbol) := by
    have small := item.symbol_lt
    rw [symbolOperation, if_pos small, if_pos (by omega), Nat.mod_eq_of_lt (by omega)]
  rw [LengthItem.bits, spells_append] at spells
  rw [LengthItem.bits, List.length_append] at room ⊢
  have some : lengths.i < n := by
    have positive : 0 < (item.expand last).length := by
      cases item with
      | single length => exact Nat.one_pos
      | again more => simp [LengthItem.expand]
      | zeros more => simp [LengthItem.expand]
      | manyZeros more => simp [LengthItem.expand]
    rw [read.i]
    omega
  unfold readLengthsPass
  rw [if_pos some]
  apply (needBits_reads stands.reads (by omega) (by omega)).andThen
  rintro _ s₁ ⟨reads₁, held₁, same₁⟩
  apply (peekBits_reads reads₁ (by omega) held₁).andThen
  rintro _ s₂ ⟨rfl, rfl⟩
  obtain ⟨decoded, -, number⟩ := decodes.entry coded (by rwa [length_wordOf]) spells.1
  rw [operation] at number
  rw [entryAt, ensures_bind, ensures_look, tables_of_unread same₁, inputData_of_unread same₁,
    decoded, number]
  apply (dumpBits_reads reads₁ (by rw [length_wordOf]; omega)).andThen
  rintro _ s₃ ⟨reads₃, -, same₃⟩
  have same₃ := same₃.trans same₁
  have stands₃ : StandsAt s₃ (position + (wordOf cb item.symbol).length) history :=
    ⟨reads₃, stands.ready.of_unread same₃⟩
  have same₃ := undecoded_of_unread same₃
  have extra : Spells s₃.inputData (position + (wordOf cb item.symbol).length) item.extraBits := by
    rw [inputData_of_undecoded same₃]
    exact spells.2
  have room₃ : position + (wordOf cb item.symbol).length + item.extraBits.length ≤
      8 * s₃.inputLen := by
    rw [inputLen_of_undecoded same₃]
    omega
  rw [← Nat.add_assoc]
  dsimp only
  cases item with
  | single length =>
      have small := length.isLt
      rw [LengthItem.symbol, if_pos small, ensures_pure]
      exact ⟨_, rfl, (repeatLength_read read _ 1).withLast _, stands₃, same₃⟩
  | again more =>
      have small := more.isLt
      rw [LengthItem.expand, List.length_replicate] at fits
      rw [LengthItem.symbol, if_neg (by omega), if_pos rfl]
      apply (takeBits_number stands₃ (by omega) small extra room₃).andThen
      rintro _ s₄ ⟨rfl, stands₄, same₄⟩
      rw [if_neg (by rw [read.i]; omega), ensures_pure, read.l]
      exact ⟨_, rfl, repeatLength_read read last _, stands₄, same₄.trans same₃⟩
  | zeros more =>
      have small := more.isLt
      rw [LengthItem.expand, List.length_replicate] at fits
      rw [LengthItem.symbol, if_neg (by omega), if_neg (by omega), if_pos rfl]
      apply (takeBits_number stands₃ (by omega) small extra room₃).andThen
      rintro _ s₄ ⟨rfl, stands₄, same₄⟩
      rw [if_neg (by rw [read.i]; omega), ensures_pure]
      exact ⟨_, rfl, (repeatLength_read read 0 _).withLast 0, stands₄, same₄.trans same₃⟩
  | manyZeros more =>
      have small := more.isLt
      rw [LengthItem.expand, List.length_replicate] at fits
      rw [LengthItem.symbol, if_neg (by omega), if_neg (by omega), if_neg (by omega)]
      apply (takeBits_number stands₃ (by omega) small extra room₃).andThen
      rintro _ s₄ ⟨rfl, stands₄, same₄⟩
      rw [if_neg (by rw [read.i]; omega), ensures_pure]
      exact ⟨_, rfl, (repeatLength_read read 0 _).withLast 0, stands₄, same₄.trans same₃⟩

/-- All lengths are read. -/
theorem readLengths_items {items : List LengthItem} {passes : Nat}
    (stands : StandsAt s position history)
    (decodes : Decodes s.tables low high cb 19 [] [] built)
    (coded : ∀ item ∈ items, cb.getD item.symbol 0 ≠ 0)
    (short : ∀ symbol, cb.getD symbol 0 ≤ built.m)
    (spells : Spells s.inputData position (items.flatMap (LengthItem.bits cb)))
    (room : position + (items.flatMap (LengthItem.bits cb)).length + 9 ≤ 8 * s.inputLen)
    (read : LengthsRead lengths done last)
    (total : done.length + (expandItems last items).length = n)
    (passesEnough : items.length < passes) :
    (Program.loop (readLengthsPass n built.t built.m) passes lengths).Ensures s (fun _ => False)
      fun found after => ∃ ll, found = some ll ∧
        (∀ k < n, ll k = (done ++ expandItems last items).getD k 0) ∧
        StandsAt after (position + (items.flatMap (LengthItem.bits cb)).length) history ∧
        after.undecoded = s.undecoded := by
  obtain ⟨passes, rfl⟩ : ∃ more, passes = more + 1 := ⟨passes - 1, by omega⟩
  rw [Program.loop]
  induction items generalizing s position lengths done last passes with
  | nil =>
      have length : done.length = n := total
      unfold readLengthsPass
      rw [if_neg (by rw [read.i]; omega), Program.pure_bind, ensures_pure]
      refine ⟨lengths.ll, rfl, fun k inside => ?_, stands, rfl⟩
      rw [expandItems, List.append_nil]
      exact read.ll k (by omega)
  | cons item items ih =>
      rw [List.flatMap_cons, List.length_append, ← Nat.add_assoc] at room ⊢
      rw [List.flatMap_cons, spells_append] at spells
      rw [expandItems, List.length_append] at total
      apply (readLengthsPass_item stands decodes (coded item List.mem_cons_self) (short _)
        spells.1 (by omega) read (by omega)).andThen
      rintro _ s₁ ⟨lengths₁, rfl, read₁, stands₁, same₁⟩
      obtain ⟨passes, rfl⟩ : ∃ more, passes = more + 1 :=
        ⟨passes - 1, by rw [List.length_cons] at passesEnough; omega⟩
      dsimp only
      rw [Program.loop]
      apply (ih stands₁ (by rwa [tables_of_undecoded same₁])
        (fun item member => coded item (List.mem_cons_of_mem _ member))
        (by rw [inputData_of_undecoded same₁]; exact spells.2)
        (by rwa [inputLen_of_undecoded same₁]) read₁
        (by rw [List.length_append]; omega) passes
        (by rw [List.length_cons] at passesEnough; omega)).mono (fun _ none => none)
      rintro found after ⟨ll, rfl, values, stands', same'⟩
      refine ⟨ll, rfl, fun k inside => ?_, stands', same'.trans same₁⟩
      rw [values k inside, expandItems, List.append_assoc]

end Lengths

/-! ## The tables of the block -/

section Trees

variable {s : State} {position fuel : Nat} {history data : List Byte} {header : Header}

/-- Where no length is used there are no tables. -/
theorem huftBuild_none {b d e : List Nat} {n m : Nat} (none : ∀ length ∈ b, length = 0) :
    (huftBuild b n d e m).Ensures s (fun _ => False) fun built after =>
      built.result = 0 ∧ after = { s with builds := s.builds + 1 } := by
  have unused : (countLengths b).getD 0 0 = b.length := by
    rw [countLengths_eq b (Nat.zero_le _), List.count_eq_length]
    intro length member
    exact (none length member).symm
  unfold huftBuild
  rw [ensures_bind, ensures_look, ensures_bind, ensures_alter]
  simp only [unused, if_true]
  rw [ensures_pure]
  exact ⟨rfl, rfl⟩

theorem expandItems_bounded {items : List LengthItem} {last : Nat} (small : last ≤ 15) :
    ∀ length ∈ expandItems last items, length ≤ 15 := by
  induction items generalizing last with
  | nil =>
      intro length member
      exact absurd member List.not_mem_nil
  | cons item items ih =>
      intro length member
      have next : item.next last ≤ 15 := by
        cases item with
        | single length => exact Nat.le_of_lt_succ length.isLt
        | again more => exact small
        | zeros more => exact Nat.zero_le _
        | manyZeros more => exact Nat.zero_le _
      rcases List.mem_append.mp member with here | later
      · cases item with
        | single length' =>
            rw [List.mem_singleton.mp here]
            exact Nat.le_of_lt_succ length'.isLt
        | again more =>
            rw [List.eq_of_mem_replicate here]
            exact small
        | zeros more =>
            rw [List.eq_of_mem_replicate here]
            exact Nat.zero_le _
        | manyZeros more =>
            rw [List.eq_of_mem_replicate here]
            exact Nat.zero_le _
      · exact ih next length later

theorem Header.bounded (header : Header) :
    (∀ length ∈ header.literals, length ≤ bmax) ∧ ∀ length ∈ header.distances, length ≤ bmax := by
  have all : ∀ length ∈ expandItems 0 header.items, length ≤ 15 :=
    expandItems_bounded (Nat.zero_le 15)
  rw [header.lengths] at all
  constructor
  · intro length member
    exact Nat.le_trans (all length (List.mem_append_left _ member)) (by decide)
  · intro length member
    exact Nat.le_trans (all length (List.mem_append_right _ member)) (by decide)

/-- The tables for literals and for distances. -/
theorem buildTrees_decodes {ll : Nat → Nat}
    (values : ∀ k < header.literals.length + header.distances.length,
      ll k = (header.literals ++ header.distances).getD k 0)
    (aligned : s.freeMemPtr % 4 = 0) (positive : 0 < s.freeMemPtr)
    (room : s.freeMemPtr + 2 * buildBytes < s.freeMemEndPtr) :
    (buildTrees ll header.literals.length header.distances.length).Ensures s (fun _ => False)
      fun built after => ∃ literals distances, built = .ok (literals, distances) ∧
        (∃ low high, Decodes after.tables low high header.literals 257 cplens cplext literals) ∧
        ((∃ symbol, header.distances.getD symbol 0 ≠ 0) →
          ∃ low high, Decodes after.tables low high header.distances 0 cpdist cpdext distances) ∧
        after.unbuilt = s.unbuilt := by
  obtain ⟨bounded, bounded'⟩ := header.bounded
  obtain ⟨-, manyLiterals⟩ := header.literalsCount
  obtain ⟨-, manyDistances⟩ := header.distancesCount
  have literalsRead : (List.range header.literals.length).map ll = header.literals := by
    apply List.ext_getElem
    · simp
    · intro k left right
      rw [List.getElem_map, List.getElem_range, values k (by omega),
        List.getD_append _ _ _ _ right, List.getD_eq_getElem _ _ right]
  have distancesRead : (List.range header.distances.length).map
      (fun k => ll (header.literals.length + k)) = header.distances := by
    apply List.ext_getElem
    · simp
    · intro k left right
      rw [List.getElem_map, List.getElem_range, values _ (by omega),
        List.getD_append_right _ _ _ _ (Nat.le_add_right _ _), Nat.add_sub_cancel_left,
        List.getD_eq_getElem _ _ right]
  unfold buildTrees
  rw [literalsRead, distancesRead]
  apply (huftBuild_usable header.literalsUsable bounded (by unfold nMax; omega)
    ⟨by decide, by decide⟩ (.inr (by unfold lbits; omega)) aligned positive (by omega)).andThen
  rintro literals s₁ ⟨result, -, decodes, upper, aligned₁, same₁, -⟩
  have ended : s₁.freeMemEndPtr = s.freeMemEndPtr := by
    have field := congrArg State.freeMemEndPtr same₁
    exact field
  have low : s.freeMemPtr ≤ s₁.freeMemPtr := by
    obtain ⟨-, -, -, -, -, -, -, -, above, inside, -⟩ := decodes
    omega
  rw [result, if_neg (not_not.mpr rfl)]
  rcases header.distancesUsable with usable | none
  · apply (huftBuild_usable usable bounded' (by unfold nMax; omega) ⟨by decide, by decide⟩
      (.inr (by unfold dbits; omega)) aligned₁ (by omega) (by omega)).andThen
    rintro distances s₂ ⟨result', -, decodes', -, -, same₂, kept⟩
    rw [result', if_neg (not_not.mpr rfl), ensures_pure]
    exact ⟨literals, distances, rfl, ⟨_, _, decodes.kept kept⟩, fun _ => ⟨_, _, decodes'⟩,
      same₂.trans same₁⟩
  · apply (huftBuild_none none).andThen
    rintro distances s₂ ⟨result', rfl⟩
    rw [result', if_neg (not_not.mpr rfl), ensures_pure]
    refine ⟨literals, distances, rfl, ⟨_, _, decodes⟩, ?_, same₁⟩
    rintro ⟨symbol, used⟩
    have zero := getD_le (fun k member => Nat.le_of_eq (none k member)) symbol
    exact absurd (Nat.le_zero.mp zero) used

theorem lengthCode_bounded (header : Header) :
    ∀ length ∈ lengthCode header.order, length ≤ 7 := by
  intro length member
  obtain ⟨symbol, -, rfl⟩ := List.mem_map.mp member
  exact getD_le (fun k member => Nat.le_of_lt_succ (header.orderBound k member)) _

theorem length_lengthCode (order : List Nat) : (lengthCode order).length = 19 := by
  simp [lengthCode]

theorem length_flatMap_numberBits (width : Nat) (numbers : List Nat) :
    (numbers.flatMap (numberBits width)).length = width * numbers.length := by
  induction numbers with
  | nil => rfl
  | cons number numbers ih =>
      rw [List.flatMap_cons, List.length_append, length_numberBits, ih, List.length_cons,
        Nat.mul_succ, Nat.add_comm]

/-- The code for the lengths is read. -/
theorem readOrder_stands (stands : StandsAt s position history)
    (spells : Spells s.inputData position (header.order.flatMap (numberBits 3)))
    (room : position + 3 * header.order.length ≤ 8 * s.inputLen) :
    (readBorder header.order.length border fun _ => 0).Ensures s (fun _ => False) fun ll after =>
      (List.range 19).map ll = lengthCode header.order ∧
        StandsAt after (position + 3 * header.order.length) history ∧
        after.undecoded = s.undecoded := by
  apply (readBorder_stands border_distinct stands header.orderCount.2 header.orderBound spells
    room _).mono (fun _ none => none)
  rintro ll after ⟨values, stands', same⟩
  refine ⟨?_, stands', same⟩
  apply List.map_congr_left
  intro symbol member
  rw [values symbol, if_pos (mem_border (List.mem_range.mp member))]

/-- A block with codes of its own. -/
theorem inflateDynamic_stands {tokens : List Token} (stands : StandsAt s position history)
    (roomy : Roomy s) (fits : (Block.dynamic header tokens).Fits position data)
    (spells : Spells s.inputData position (Block.dynamic header tokens).body)
    (room : position + (Block.dynamic header tokens).body.length + 9 ≤ 8 * s.inputLen)
    (enough : 259 ≤ fuel) (items : header.items.length < fuel) (passes : tokens.length < fuel) :
    (inflateDynamic fuel).Ensures s (fun _ => False) fun result after => result = 0 ∧
      StandsAt after (position + (Block.dynamic header tokens).body.length)
        (expandAll history tokens) ∧
      after.unpassed = s.unpassed := by
  obtain ⟨aligned, positive, memory⟩ := roomy
  obtain ⟨fewLiterals, manyLiterals⟩ := header.literalsCount
  obtain ⟨fewDistances, manyDistances⟩ := header.distancesCount
  obtain ⟨fewOrder, manyOrder⟩ := header.orderCount
  have length : (Block.dynamic header tokens).body.length = 5 + (5 + (4 +
      (3 * header.order.length +
        ((header.items.flatMap (LengthItem.bits (lengthCode header.order))).length +
          (tokensBits header.literals header.distances tokens).length)))) := by
    simp only [Block.body, Header.bits, List.length_append, length_numberBits,
      length_flatMap_numberBits]
    omega
  rw [length] at room ⊢
  rw [Block.body, Header.bits, List.append_assoc, List.append_assoc, List.append_assoc,
    List.append_assoc, spells_append, spells_append, spells_append, spells_append, spells_append,
    length_numberBits, length_numberBits, length_numberBits, length_flatMap_numberBits] at spells
  obtain ⟨bits₁, bits₂, bits₃, orderBits, itemBits, tokenBits⟩ := spells
  have bound₁ : header.literals.length - 257 < 2 ^ 5 := by omega
  have bound₂ : header.distances.length - 1 < 2 ^ 5 := by omega
  have bound₃ : header.order.length - 4 < 2 ^ 4 := by omega
  unfold inflateDynamic
  apply (takeBits_number stands (by omega) bound₁ bits₁ (by omega)).andThen
  rintro n₁ s₁ ⟨read₁, stands₁, same₁⟩
  apply (takeBits_number stands₁ (by omega) bound₂
    (by rw [inputData_of_undecoded same₁]; exact bits₂)
    (by rw [inputLen_of_undecoded same₁]; omega)).andThen
  rintro n₂ s₂ ⟨read₂, stands₂, same₂⟩
  have same₂ := same₂.trans same₁
  apply (takeBits_number stands₂ (by omega) bound₃
    (by rw [inputData_of_undecoded same₂]; exact bits₃)
    (by rw [inputLen_of_undecoded same₂]; omega)).andThen
  rintro n₃ s₃ ⟨read₃, stands₃, same₃⟩
  have same₃ := same₃.trans same₂
  have nl : 257 + n₁ = header.literals.length := by omega
  have nd : 1 + n₂ = header.distances.length := by omega
  have nb : 4 + n₃ = header.order.length := by omega
  simp only [nl, nd, nb]
  rw [if_neg (by omega)]
  apply (readOrder_stands stands₃ (by rwa [inputData_of_undecoded same₃])
    (by rw [inputLen_of_undecoded same₃]; omega)).andThen
  rintro ll s₄ ⟨order, stands₄, same₄⟩
  have same₄ := same₄.trans same₃
  have pointer₄ := freeMemPtr_of_undecoded same₄
  have end₄ := freeMemEndPtr_of_unpassed (unpassed_of_undecoded same₄)
  rw [order]
  apply (huftBuild_usable header.orderUsable
    (fun k member => Nat.le_trans (lengthCode_bounded header k member) (by decide))
    (by rw [length_lengthCode]; decide) ⟨by decide, by decide⟩
    (.inr (by rw [length_lengthCode]; decide)) (by omega) (by omega) (by omega)).andThen
  rintro tree s₅ ⟨result, wide, decodes, upper, aligned₅, same₅, -⟩
  have pointer₅ : s₄.freeMemPtr ≤ s₅.freeMemPtr := by
    obtain ⟨-, -, -, -, -, -, -, -, above, inside, -⟩ := decodes
    omega
  rw [result, if_neg (not_not.mpr rfl)]
  have passed₅ := (unpassed_of_unbuilt same₅).trans (unpassed_of_undecoded same₄)
  have short := getD_le fun k member => wide k member (lengthCode_bounded header k member)
  apply (readLengths_items (stands₄.of_unbuilt same₅) decodes header.itemsCoded short
    (by rwa [inputData_of_unpassed passed₅])
    (by rw [inputLen_of_unpassed passed₅]; omega) (lengthsRead_nil _)
    (by rw [List.length_nil, Nat.zero_add, header.lengths, List.length_append]) items).andThen
  rintro _ s₆ ⟨ll', rfl, values, stands₆, same₆⟩
  rw [List.nil_append, header.lengths] at values
  have passed₆ := (unpassed_of_undecoded same₆).trans passed₅
  have pointer₆ := freeMemPtr_of_undecoded same₆
  have end₆ := freeMemEndPtr_of_unpassed passed₆
  apply (buildTrees_decodes values (by omega) (by omega) (by omega)).andThen
  rintro _ s₇ ⟨literals, distances, rfl, ⟨low, high, decodesLiterals⟩, decodesDistances, same₇⟩
  have passed₇ := (unpassed_of_unbuilt same₇).trans passed₆
  obtain ⟨bounded, bounded'⟩ := header.bounded
  have decodes' : (∃ symbol, header.distances.getD symbol 0 ≠ 0) →
      ∃ low high, Decodes s₇.tables low high header.distances 0 cpdist cpdext distances :=
    decodesDistances
  dsimp only
  unfold inflateCodes
  apply (inflateCodes_tokens (stands₆.of_unbuilt same₇) decodesLiterals decodes' bounded bounded'
    fits.2 header.ended (by rwa [inputData_of_unpassed passed₇])
    (by rw [inputLen_of_unpassed passed₇]; omega) enough passes).andThen
  rintro _ s₈ ⟨rfl, stands₈, same₈⟩
  rw [if_neg (not_not.mpr rfl), ensures_pure]
  refine ⟨rfl, ?_, (unpassed_of_undecoded same₈).trans passed₇⟩
  simp only [Nat.add_assoc] at stands₈ ⊢
  exact stands₈

end Trees

end Cromwell.Gzip
