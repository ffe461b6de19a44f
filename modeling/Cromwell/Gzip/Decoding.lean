import Cromwell.Gzip.Format

/-!
# Reading pieces back

Where the input spells the pieces of a block and the tables hold the codes of the block,
`inflate_codes` puts out what the pieces stand for and stops behind the word for the end.
-/

namespace Cromwell.Gzip

open Cromwell.Std Program

/-- The decoder stands at a bit of the input, behind some data. -/
structure StandsAt (s : State) (position : Nat) (history : List Byte) : Prop where
  reads : ReadsAt s position
  ready : Ready history s

/-- The state without what decoding changes. -/
def State.undecoded (s : State) : State := s.unread.unwritten

section Frame

variable {s s' : State} {position : Nat} {history : List Byte}

theorem undecoded_of_unread (same : s'.unread = s.unread) : s'.undecoded = s.undecoded :=
  congrArg State.unwritten same

theorem undecoded_of_unwritten (same : s'.unwritten = s.unwritten) :
    s'.undecoded = s.undecoded := by
  have both := congrArg State.unread same
  exact both

theorem inputData_of_undecoded (same : s'.undecoded = s.undecoded) :
    s'.inputData = s.inputData := by
  have field := congrArg State.inputData same
  exact field

theorem inputLen_of_undecoded (same : s'.undecoded = s.undecoded) : s'.inputLen = s.inputLen := by
  have field := congrArg State.inputLen same
  exact field

theorem tables_of_undecoded (same : s'.undecoded = s.undecoded) : s'.tables = s.tables := by
  have field := congrArg State.tables same
  exact field

end Frame

@[simp] theorem length_wordOf (b : List Nat) (symbol : Nat) :
    (wordOf b symbol).length = b.getD symbol 0 :=
  length_canonicalWord _ _ _

section Bounds

variable (copy : Copy)

theorem leastLength_bounds (symbol : Fin 29) :
    3 ≤ leastLength symbol ∧ leastLength symbol + 2 ^ lengthExtraBits symbol ≤ 260 ∧
      lengthExtraBits symbol ≤ 5 := by
  revert symbol
  decide

theorem leastDistance_bounds (symbol : Fin 30) :
    1 ≤ leastDistance symbol ∧ leastDistance symbol + 2 ^ distanceExtraBits symbol ≤ 32769 ∧
      distanceExtraBits symbol ≤ 13 := by
  revert symbol
  decide

theorem Copy.count_bounds : 3 ≤ copy.count ∧ copy.count ≤ 259 := by
  obtain ⟨least, most, -⟩ := leastLength_bounds copy.length
  have extra := copy.lengthExtra.isLt
  unfold Copy.count
  omega

theorem Copy.back_bounds : 1 ≤ copy.back ∧ copy.back ≤ wsize := by
  obtain ⟨least, most, -⟩ := leastDistance_bounds copy.distance
  have extra := copy.distanceExtra.isLt
  unfold Copy.back wsize
  omega

end Bounds

section Codes

variable {s : State} {position fuel low high low' high' : Nat} {history : List Byte}
  {lb db : List Nat} {literals distances : Built}

/-- The number of the bits that are read next. -/
theorem takeBits_number (stands : StandsAt s position history) {width number : Nat}
    (small : width ≤ 16) (bounded : number < 2 ^ width)
    (spells : Spells s.inputData position (numberBits width number))
    (room : position + width ≤ 8 * s.inputLen) :
    (takeBits width).Ensures s (fun _ => False) fun value after =>
      value = number ∧ StandsAt after (position + width) history ∧
        after.undecoded = s.undecoded := by
  apply (takeBits_reads stands.reads small room).mono (fun _ none => none)
  rintro value after ⟨rfl, reads, same⟩
  exact ⟨spells.number bounded, ⟨reads, stands.ready.of_unread same⟩, undecoded_of_unread same⟩

/-- The pass for a byte. -/
theorem inflateCodesPass_literal (stands : StandsAt s position history)
    (decodes : Decodes s.tables low high lb 257 cplens cplext literals) {byte : Byte}
    (coded : (Token.literal byte).Coded lb db)
    (spells : Spells s.inputData position ((Token.literal byte).bits lb db))
    (room : position + ((Token.literal byte).bits lb db).length + 9 ≤ 8 * s.inputLen)
    (enough : lb.getD byte.toNat 0 < fuel) :
    (inflateCodesPass fuel literals.t distances.t literals.m distances.m).Ensures s
      (fun _ => False) fun ended after => ended = .next () ∧
        StandsAt after (position + ((Token.literal byte).bits lb db).length)
          ((Token.literal byte).expand history) ∧
        after.undecoded = s.undecoded := by
  have small := byte.toNat_lt
  have operation : symbolOperation 257 cplens cplext byte.toNat = (16, byte.toNat) := by
    rw [symbolOperation, if_pos (by omega), if_pos (by omega), Nat.mod_eq_of_lt (by omega)]
  unfold inflateCodesPass
  apply (decodes.lookUp coded (by rw [operation]) stands.reads rfl spells room
    (by rwa [length_wordOf])).andThen
  rintro _ s₁ ⟨t, rfl, e, n, same₁, held₁, position', reads₁, place⟩
  rw [operation] at e n
  dsimp only at e n ⊢
  apply (dumpBits_reads reads₁ held₁).andThen
  rintro _ s₂ ⟨reads₂, -, same₂⟩
  rw [place] at reads₂
  rw [if_pos e, n, UInt8.ofNat_toNat]
  have ready₂ := stands.ready.of_unread (same₂.trans same₁)
  apply (putByte_ready ready₂ byte).andThen
  rintro _ s₃ ⟨ready₃, same₃⟩
  exact ⟨rfl, ⟨reads₂.of_unwritten same₃, ready₃⟩,
    (undecoded_of_unwritten same₃).trans (undecoded_of_unread (same₂.trans same₁))⟩

/-- The pass for the end of a block. -/
theorem inflateCodesPass_end (stands : StandsAt s position history)
    (decodes : Decodes s.tables low high lb 257 cplens cplext literals)
    (coded : lb.getD 256 0 ≠ 0) (spells : Spells s.inputData position (wordOf lb 256))
    (room : position + (wordOf lb 256).length + 9 ≤ 8 * s.inputLen)
    (enough : lb.getD 256 0 < fuel) :
    (inflateCodesPass fuel literals.t distances.t literals.m distances.m).Ensures s
      (fun _ => False) fun ended after => ended = .leave 0 ∧
        StandsAt after (position + (wordOf lb 256).length) history ∧
        after.undecoded = s.undecoded := by
  have operation : symbolOperation 257 cplens cplext 256 = (15, 256) := rfl
  unfold inflateCodesPass
  apply (decodes.lookUp coded (by rw [operation]; decide) stands.reads rfl spells room
    (by rwa [length_wordOf])).andThen
  rintro _ s₁ ⟨t, rfl, e, n, same₁, held₁, position', reads₁, place⟩
  rw [operation] at e
  dsimp only at e ⊢
  apply (dumpBits_reads reads₁ held₁).andThen
  rintro _ s₂ ⟨reads₂, -, same₂⟩
  rw [place] at reads₂
  rw [if_neg (by omega), if_pos e]
  exact ⟨rfl, ⟨reads₂, stands.ready.of_unread (same₂.trans same₁)⟩,
    undecoded_of_unread (same₂.trans same₁)⟩

/-- The place a copy is taken from. -/
theorem follows_of_back {outcnt distance : Nat} (near : distance ≤ wsize)
    (place : history.length % wsize = outcnt) :
    Follows distance ((outcnt + 2 * 2 ^ 32 - distance) % 2 ^ 32) history := by
  unfold Follows
  unfold wsize at *
  omega

/-- The entry for the symbol of a length. -/
theorem Copy.operation_length (copy : Copy) :
    symbolOperation 257 cplens cplext (257 + copy.length) =
      (lengthExtraBits copy.length, leastLength copy.length) := by
  obtain ⟨least, greatest, few⟩ := leastLength_bounds copy.length
  have positive := Nat.two_pow_pos (lengthExtraBits copy.length)
  rw [symbolOperation, if_neg (by omega), Nat.add_sub_cancel_left, leastLength_eq,
    lengthExtraBits_eq, Nat.mod_eq_of_lt (by omega), Nat.mod_eq_of_lt (by omega)]

/-- The entry for the symbol of a distance. -/
theorem Copy.operation_distance (copy : Copy) :
    symbolOperation 0 cpdist cpdext copy.distance =
      (distanceExtraBits copy.distance, leastDistance copy.distance) := by
  obtain ⟨least, greatest, few⟩ := leastDistance_bounds copy.distance
  have positive := Nat.two_pow_pos (distanceExtraBits copy.distance)
  rw [symbolOperation, if_neg (by omega), Nat.sub_zero, leastDistance_eq,
    distanceExtraBits_eq, Nat.mod_eq_of_lt (by omega), Nat.mod_eq_of_lt (by omega)]

/-- The pass for a copy. -/
theorem inflateCodesPass_copied (stands : StandsAt s position history)
    (decodes : Decodes s.tables low high lb 257 cplens cplext literals)
    (decodes' : Decodes s.tables low' high' db 0 cpdist cpdext distances) {copy : Copy}
    (coded : (Token.copied copy).Coded lb db)
    (spells : Spells s.inputData position ((Token.copied copy).bits lb db))
    (room : position + ((Token.copied copy).bits lb db).length + 9 ≤ 8 * s.inputLen)
    (enough : lb.getD (257 + copy.length) 0 < fuel ∧ db.getD copy.distance 0 < fuel ∧ 259 ≤ fuel) :
    (inflateCodesPass fuel literals.t distances.t literals.m distances.m).Ensures s
      (fun _ => False) fun ended after => ended = .next () ∧
        StandsAt after (position + ((Token.copied copy).bits lb db).length)
          ((Token.copied copy).expand history) ∧
        after.undecoded = s.undecoded := by
  obtain ⟨minLength, maxLength, fewLength⟩ := leastLength_bounds copy.length
  obtain ⟨minDistance, maxDistance, fewDistance⟩ := leastDistance_bounds copy.distance
  have lengthSmall := copy.length.isLt
  have extraSmall := copy.lengthExtra.isLt
  have extraSmall' := copy.distanceExtra.isLt
  have operation := copy.operation_length
  have operation' := copy.operation_distance
  have length : ((Token.copied copy).bits lb db).length = (wordOf lb (257 + copy.length)).length +
      (lengthExtraBits copy.length + ((wordOf db copy.distance).length +
        distanceExtraBits copy.distance)) := by
    simp [Token.bits]
  rw [length] at room ⊢
  rw [Token.bits, spells_append, spells_append, spells_append, length_numberBits] at spells
  obtain ⟨word, extra, word', extra'⟩ := spells
  unfold inflateCodesPass
  apply (decodes.lookUp coded.1 (by rw [operation]; dsimp only; omega) stands.reads rfl word
    (by omega) (by rw [length_wordOf]; exact enough.1)).andThen
  rintro _ s₁ ⟨t, rfl, e, n, same₁, held₁, position₁, reads₁, place₁⟩
  rw [operation] at e n
  dsimp only at e n ⊢
  apply (dumpBits_reads reads₁ held₁).andThen
  rintro _ s₂ ⟨reads₂, -, same₂⟩
  rw [place₁] at reads₂
  have same₂ := same₂.trans same₁
  have input₂ := inputData_of_unread same₂
  have inputLen₂ := inputLen_of_unread same₂
  rw [if_neg (by omega), if_neg (by omega), e, n]
  apply (takeBits_reads reads₂ (by omega) (by omega)).andThen
  rintro _ s₃ ⟨rfl, reads₃, same₃⟩
  rw [input₂, extra.number extraSmall]
  have same₃ := same₃.trans same₂
  have input₃ := inputData_of_unread same₃
  have inputLen₃ := inputLen_of_unread same₃
  apply (decodes'.lookUp coded.2 (by rw [operation']; dsimp only; omega) reads₃
    (tables_of_unread same₃) (by rwa [input₃]) (by omega)
    (by rw [length_wordOf]; exact enough.2.1)).andThen
  rintro _ s₄ ⟨t', rfl, e', n', same₄, held₄, position₄, reads₄, place₄⟩
  rw [operation'] at e' n'
  dsimp only at e' n' ⊢
  apply (dumpBits_reads reads₄ held₄).andThen
  rintro _ s₅ ⟨reads₅, -, same₅⟩
  rw [place₄] at reads₅
  have same₅ := (same₅.trans same₄).trans same₃
  have input₅ := inputData_of_unread same₅
  have inputLen₅ := inputLen_of_unread same₅
  rw [e', n']
  apply (needBits_reads reads₅ (by omega) (by omega)).andThen
  rintro _ s₆ ⟨reads₆, held₆, same₆⟩
  have same₆ := same₆.trans same₅
  have input₆ := inputData_of_unread same₆
  apply (peekBits_reads reads₆ (by omega) held₆).andThen
  rintro _ s₇ ⟨rfl, rfl⟩
  rw [input₆, extra'.number extraSmall', ensures_bind, ensures_look]
  apply (dumpBits_reads reads₆ held₆).andThen
  rintro _ s₈ ⟨reads₈, -, same₈⟩
  have same₈ := same₈.trans same₆
  have ready₈ := stands.ready.of_unread same₈
  have back := copy.back_bounds
  have count := copy.count_bounds
  have place : history.length % wsize = s₇.outcnt := by
    obtain ⟨flushed, written, short⟩ := stands.ready
    rw [outcnt_of_unread same₆]
    exact written.place short
  have follows := follows_of_back back.2 place
  rw [Nat.sub_sub]
  apply (copyBytes_ready ready₈ (by omega) back.2 follows (by unfold Copy.count at count; omega)
    (by unfold Copy.count at count; omega)).andThen
  rintro _ s₉ ⟨ready₉, same₉⟩
  refine ⟨rfl, ⟨?_, ready₉⟩, (undecoded_of_unwritten same₉).trans (undecoded_of_unread same₈)⟩
  have reads₉ := reads₈.of_unwritten same₉
  rwa [Nat.add_assoc, Nat.add_assoc, Nat.add_assoc] at reads₉

theorem getD_le {b : List Nat} {bound : Nat} (bounded : ∀ k ∈ b, k ≤ bound) (symbol : Nat) :
    b.getD symbol 0 ≤ bound := by
  rcases Nat.lt_or_ge symbol b.length with inside | outside
  · rw [List.getD_eq_getElem b 0 inside]
    exact bounded _ (List.getElem_mem inside)
  · rw [List.getD_eq_getElem?_getD, List.getElem?_eq_none outside]
    exact Nat.zero_le bound

/-- The pass for a piece. -/
theorem inflateCodesPass_token (stands : StandsAt s position history)
    (decodes : Decodes s.tables low high lb 257 cplens cplext literals)
    (decodes' : (∃ symbol, db.getD symbol 0 ≠ 0) →
      ∃ low' high', Decodes s.tables low' high' db 0 cpdist cpdext distances)
    (bounded : ∀ k ∈ lb, k ≤ bmax) (bounded' : ∀ k ∈ db, k ≤ bmax) {token : Token}
    (coded : token.Coded lb db) (spells : Spells s.inputData position (token.bits lb db))
    (room : position + (token.bits lb db).length + 9 ≤ 8 * s.inputLen) (enough : 259 ≤ fuel) :
    (inflateCodesPass fuel literals.t distances.t literals.m distances.m).Ensures s
      (fun _ => False) fun ended after => ended = .next () ∧
        StandsAt after (position + (token.bits lb db).length) (token.expand history) ∧
        after.undecoded = s.undecoded := by
  have short : ∀ symbol, lb.getD symbol 0 < fuel := fun symbol => by
    have bound := getD_le bounded symbol
    unfold bmax at bound
    omega
  have short' : ∀ symbol, db.getD symbol 0 < fuel := fun symbol => by
    have bound := getD_le bounded' symbol
    unfold bmax at bound
    omega
  cases token with
  | literal byte => exact inflateCodesPass_literal stands decodes coded spells room (short _)
  | copied copy =>
      obtain ⟨low', high', found⟩ := decodes' ⟨_, coded.2⟩
      exact inflateCodesPass_copied stands decodes found coded spells room
        ⟨short _, short' _, enough⟩

/-- The pieces of a block, and its end. -/
theorem inflateCodes_tokens {tokens : List Token} {passes : Nat}
    (stands : StandsAt s position history)
    (decodes : Decodes s.tables low high lb 257 cplens cplext literals)
    (decodes' : (∃ symbol, db.getD symbol 0 ≠ 0) →
      ∃ low' high', Decodes s.tables low' high' db 0 cpdist cpdext distances)
    (bounded : ∀ k ∈ lb, k ≤ bmax) (bounded' : ∀ k ∈ db, k ≤ bmax)
    (coded : ∀ token ∈ tokens, token.Coded lb db) (ended : lb.getD 256 0 ≠ 0)
    (spells : Spells s.inputData position (tokensBits lb db tokens))
    (room : position + (tokensBits lb db tokens).length + 9 ≤ 8 * s.inputLen)
    (enough : 259 ≤ fuel) (passesEnough : tokens.length < passes) :
    (Program.loop (fun _ => inflateCodesPass fuel literals.t distances.t literals.m distances.m)
      passes ()).Ensures s (fun _ => False) fun result after => result = 0 ∧
        StandsAt after (position + (tokensBits lb db tokens).length)
          (expandAll history tokens) ∧ after.undecoded = s.undecoded := by
  obtain ⟨passes, rfl⟩ : ∃ more, passes = more + 1 := ⟨passes - 1, by omega⟩
  rw [Program.loop]
  induction tokens generalizing s position history passes with
  | nil =>
      have short := getD_le bounded 256
      unfold bmax at short
      apply (inflateCodesPass_end stands decodes ended spells room (by omega)).andThen
      rintro _ after ⟨rfl, stands', same⟩
      exact ⟨rfl, stands', same⟩
  | cons token tokens ih =>
      have split : tokensBits lb db (token :: tokens) =
          token.bits lb db ++ tokensBits lb db tokens := by
        rw [tokensBits, tokensBits, List.flatMap_cons, List.append_assoc]
      rw [split, List.length_append, ← Nat.add_assoc] at room ⊢
      rw [split, spells_append] at spells
      apply (inflateCodesPass_token stands decodes decodes' bounded bounded'
        (coded token List.mem_cons_self) spells.1 (by omega) enough).andThen
      rintro _ s₁ ⟨rfl, stands₁, same₁⟩
      have tables₁ := tables_of_undecoded same₁
      obtain ⟨passes, rfl⟩ : ∃ more, passes = more + 1 :=
        ⟨passes - 1, by rw [List.length_cons] at passesEnough; omega⟩
      dsimp only
      rw [Program.loop]
      apply (ih stands₁ (by rwa [tables₁]) (by rwa [tables₁])
        (fun token member => coded token (List.mem_cons_of_mem _ member))
        (by rw [inputData_of_undecoded same₁]; exact spells.2)
        (by rwa [inputLen_of_undecoded same₁]) passes
        (by rw [List.length_cons] at passesEnough; omega)).mono (fun _ none => none)
      rintro result after ⟨done, stands', same'⟩
      exact ⟨done, stands', same'.trans same₁⟩

end Codes

end Cromwell.Gzip
