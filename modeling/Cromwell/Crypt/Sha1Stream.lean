import Cromwell.Crypt.Sha1

/-!
# What the context functions compute

A context holds the hash of the bytes given to it so far: its intermediate state,
and the front of its message block, are those of the iterated hash. Every input
function keeps this relation, so the digest is that of the padded concatenation of
the inputs, and the bytes an uninitialised block happens to hold never matter.
-/

namespace Cromwell.Crypt

open Cromwell.Std Cromwell.Std.Absorbing

variable (compress : Compress)

/-! ## The hash of a byte string -/

/-- The 64-bit message length, most significant byte first. -/
def bigEndian64 (bits : Nat) : List Byte :=
  (List.range 8).map fun i => UInt8.ofNat (bits / 256 ^ (7 - i))

/-- A one bit, the zeros that leave room for the length in the last block, and the length. -/
def padding (bits length : Nat) : List Byte :=
  0x80 :: (List.replicate ((119 - length % 64) % 64) 0 ++ bigEndian64 bits)

/-- SHA-1 continued from a state that already counts some bits. -/
def sha1From (initial : HashState) (counted : Nat) (message : List Byte) : Vector Byte 20 :=
  hashBytes ((fresh initial).absorb 64 compress
    (message ++ padding (counted + 8 * message.length) message.length)).state

/-- SHA-1. -/
def sha1 (message : List Byte) : Vector Byte 20 := sha1From compress sha1Initial 0 message

example : (sha1 sha1Compress [0x61, 0x62, 0x63]).toList =
    [0xa9, 0x99, 0x3e, 0x36, 0x47, 0x06, 0x81, 0x6a, 0xba, 0x3e, 0x25, 0x71, 0x78, 0x50, 0xc2,
      0x6c, 0x9c, 0xd0, 0xd8, 0x9d] := by
  decide +kernel

/-! ## The message block -/

/-- The context is in the state of the hash, with the partial block in front of its block. -/
structure Holds (context : SHA1Context) (hash : Absorbing HashState Byte) : Prop where
  state : context.intermediateHash = hash.state
  index : context.messageBlockIndex = hash.pending.length
  block : context.messageBlock.toList.take hash.pending.length = hash.pending

section Block

variable {context : SHA1Context} {hash : Absorbing HashState Byte}

theorem take_putByte (holds : Holds context hash) (room : hash.pending.length < 64) (byte : Byte) :
    (putByte context byte).messageBlock.toList.take (hash.pending.length + 1) =
      hash.pending ++ [byte] := by
  have inside : hash.pending.length < context.messageBlock.toList.length := by simpa using room
  simp only [putByte, holds.index, Vector.toList_setIfInBounds]
  rw [List.take_add_one, List.take_set_of_le (Nat.le_refl _), holds.block,
    List.getElem?_set_self inside]
  rfl

theorem putByte_short (holds : Holds context hash) (room : hash.pending.length + 1 < 64)
    (byte : Byte) : Holds (putByte context byte) (hash.absorbOne 64 compress byte) := by
  have partBlock : hash.pending.length + 1 ≠ 64 := by omega
  simp only [absorbOne, if_neg partBlock]
  exact {
    state := holds.state
    index := by simp [putByte, holds.index]
    block := by simpa using take_putByte holds (by omega) byte }

theorem putByte_full (holds : Holds context hash) (last : hash.pending.length + 1 = 64)
    (byte : Byte) :
    Holds (sha1ProcessMessageBlock compress (putByte context byte))
      (hash.absorbOne 64 compress byte) := by
  have whole : (putByte context byte).messageBlock.toList = hash.pending ++ [byte] := by
    rw [← take_putByte holds (by omega) byte, last, List.take_of_length_le (by simp)]
  simp only [absorbOne, if_pos last]
  exact {
    state := by
      simp only [sha1ProcessMessageBlock, whole, fresh]
      rw [← holds.state]
      rfl
    index := rfl
    block := rfl }

/-- Bytes that do not fill the block. -/
theorem putBytes_short (items : List Byte) (holds : Holds context hash)
    (room : hash.pending.length + items.length < 64) :
    Holds (items.foldl putByte context) (hash.absorb 64 compress items) ∧
      (hash.absorb 64 compress items).pending.length = hash.pending.length + items.length := by
  refine ⟨?_, by rw [length_absorb items (by omega), Nat.mod_eq_of_lt room]⟩
  induction items generalizing context hash with
  | nil => exact holds
  | cons item items ih =>
      rw [List.length_cons] at room
      have grown := length_absorbOne compress item (by omega : hash.pending.length < 64)
      rw [Nat.mod_eq_of_lt (by omega)] at grown
      exact ih (putByte_short compress holds (by omega) item) (by omega)

/-- Bytes that fill the block, which is then compressed. -/
theorem putBytes_full (items : List Byte) (some : items ≠ []) (holds : Holds context hash)
    (last : hash.pending.length + items.length = 64) :
    Holds (sha1ProcessMessageBlock compress (items.foldl putByte context))
      (hash.absorb 64 compress items) := by
  rcases List.eq_nil_or_concat items with empty | ⟨front, item, rfl⟩
  · exact absurd empty some
  · rw [List.concat_eq_append, List.length_append, List.length_singleton] at last
    obtain ⟨short, length⟩ := putBytes_short compress front holds (by omega)
    rw [List.concat_eq_append, List.foldl_append, absorb_append]
    exact putByte_full compress short (by omega) item

end Block

/-! ## The length -/

/-- The message length in bits. -/
def SHA1Context.bits (context : SHA1Context) : Nat :=
  context.lengthHigh.toNat * 2 ^ 32 + context.lengthLow.toNat

/-- The length field is the big-endian length. -/
theorem lengthBytes_eq (context : SHA1Context) :
    lengthBytes context.lengthHigh context.lengthLow = bigEndian64 context.bits := by
  have high := context.lengthHigh.toNat_lt
  have low := context.lengthLow.toNat_lt
  have positions : List.range 8 = [0, 1, 2, 3, 4, 5, 6, 7] := rfl
  rw [bigEndian64, positions, SHA1Context.bits]
  simp only [lengthBytes, List.map_cons, List.map_nil, List.cons.injEq, and_true]
  refine ⟨?_, ?_, ?_, ?_, ?_, ?_, ?_, ?_⟩ <;> apply UInt8.toNat_inj.mp <;>
    simp [UInt32.toNat_shiftRight, Nat.shiftRight_eq_div_pow] <;> omega

/-- Counting a byte adds eight bits; the length does not overflow below 2^64. -/
theorem countByte_spec {context : SHA1Context} (live : context.corrupted = false)
    (aligned : context.bits % 8 = 0) (room : context.bits + 8 < 2 ^ 64) :
    ∃ low high, countByte context = { context with lengthLow := low, lengthHigh := high } ∧
      (countByte context).bits = context.bits + 8 := by
  have lowBound := context.lengthLow.toNat_lt
  have highBound := context.lengthHigh.toNat_lt
  have low : (context.lengthLow + 8).toNat = (context.lengthLow.toNat + 8) % 2 ^ 32 :=
    UInt32.toNat_add _ _
  have high : (context.lengthHigh + 1).toNat = (context.lengthHigh.toNat + 1) % 2 ^ 32 :=
    UInt32.toNat_add _ _
  simp only [SHA1Context.bits] at aligned room ⊢
  unfold countByte
  by_cases carry : context.lengthLow + 8 = 0
  · rw [carry, UInt32.toNat_zero] at low
    have noOverflow : context.lengthHigh + 1 ≠ 0 := by
      intro wrapped
      rw [wrapped, UInt32.toNat_zero] at high
      omega
    simp only [if_pos carry, if_neg noOverflow]
    refine ⟨context.lengthLow + 8, context.lengthHigh + 1, by rw [live], ?_⟩
    rw [carry, high, UInt32.toNat_zero]
    omega
  · simp only [if_neg carry]
    refine ⟨context.lengthLow + 8, context.lengthHigh, rfl, ?_⟩
    have nonzero : (context.lengthLow + 8).toNat ≠ 0 := fun zero =>
      carry (UInt32.toNat_inj.mp zero)
    omega

/-! ## Input and result -/

/-- The context holds the hash of some input, still takes more, and has counted `bits`. -/
structure Collects (context : SHA1Context) (hash : Absorbing HashState Byte) (bits : Nat) :
    Prop where
  holds : Holds context hash
  counted : context.bits = bits
  computed : context.computed = false
  corrupted : context.corrupted = false

section Input

variable {compress} {context : SHA1Context} {hash : Absorbing HashState Byte} {bits : Nat}

theorem collects_reset (context : SHA1Context) :
    Collects (sha1Reset context) (fresh sha1Initial) 0 where
  holds := { state := rfl, index := rfl, block := rfl }
  counted := by simp [sha1Reset, SHA1Context.bits]
  computed := rfl
  corrupted := rfl

/-- One byte of input. -/
theorem Collects.inputByte (collects : Collects context hash bits)
    (room : hash.pending.length < 64) (aligned : bits % 8 = 0) (short : bits + 8 < 2 ^ 64)
    (byte : Byte) :
    Collects (inputByte compress context byte) (hash.absorbOne 64 compress byte) (bits + 8) := by
  have unchanged : (putByte context byte).bits = bits := collects.counted
  rw [← unchanged] at aligned short ⊢
  have live : (putByte context byte).corrupted = false := collects.corrupted
  obtain ⟨low, high, shape, total⟩ := countByte_spec live aligned short
  unfold Crypt.inputByte
  by_cases last : hash.pending.length + 1 = 64
  · have full : (countByte (putByte context byte)).messageBlockIndex = 64 := by
      rw [shape]
      simp [putByte, collects.holds.index, last]
    have put := putByte_full compress collects.holds last byte
    simp only [if_pos full]
    rw [← total, shape]
    exact {
      holds := { state := put.state, index := put.index, block := put.block }
      counted := rfl
      computed := collects.computed
      corrupted := collects.corrupted }
  · have partBlock : (countByte (putByte context byte)).messageBlockIndex ≠ 64 := by
      rw [shape]
      simpa [putByte, collects.holds.index] using last
    have put := putByte_short compress collects.holds (by omega) byte
    simp only [if_neg partBlock]
    rw [← total, shape]
    exact {
      holds := { state := put.state, index := put.index, block := put.block }
      counted := rfl
      computed := collects.computed
      corrupted := collects.corrupted }

/-- The loop of `SHA1Input`. -/
theorem Collects.inputBytes (message : List Byte) (collects : Collects context hash bits)
    (room : hash.pending.length < 64) (aligned : bits % 8 = 0)
    (short : bits + 8 * message.length < 2 ^ 64) :
    Collects (inputBytes compress context message) (hash.absorb 64 compress message)
      (bits + 8 * message.length) := by
  induction message generalizing context hash bits with
  | nil => exact collects
  | cons byte rest ih =>
      rw [List.length_cons] at short ⊢
      have step : Collects (Crypt.inputByte compress context byte) _ _ :=
        collects.inputByte room aligned (by omega) byte
      have grown := length_absorbOne compress byte room
      have total : bits + 8 * (rest.length + 1) = bits + 8 + 8 * rest.length := by omega
      rw [Crypt.inputBytes, collects.corrupted, total]
      exact ih step (by rw [grown]; exact Nat.mod_lt _ (by omega)) (by omega) (by omega)

/-- `SHA1Input` appends to the message. -/
theorem Collects.sha1Input (message : List Byte) (collects : Collects context hash bits)
    (room : hash.pending.length < 64) (aligned : bits % 8 = 0)
    (short : bits + 8 * message.length < 2 ^ 64) :
    Collects (sha1Input compress context message) (hash.absorb 64 compress message)
      (bits + 8 * message.length) := by
  cases message with
  | nil => exact collects
  | cons byte rest =>
      rw [Crypt.sha1Input, if_neg (List.cons_ne_nil _ _), collects.computed, collects.corrupted]
      exact collects.inputBytes (byte :: rest) room aligned short

end Input

/-! ## Padding -/

section Padding

variable {context : SHA1Context} {hash : Absorbing HashState Byte}

theorem putBytes_fields (items : List Byte) (context : SHA1Context) :
    (items.foldl putByte context).lengthLow = context.lengthLow ∧
      (items.foldl putByte context).lengthHigh = context.lengthHigh := by
  induction items generalizing context with
  | nil => exact ⟨rfl, rfl⟩
  | cons item items ih => exact ih (putByte context item)

/-- Storing the length at its place is the same as putting it behind 56 bytes. -/
theorem processLength (context : SHA1Context) (at56 : context.messageBlockIndex = 56)
    (lengthHigh lengthLow : UInt32) :
    sha1ProcessMessageBlock compress
        { context with
          messageBlock := (List.range 8).foldl
            (fun block i => block.setIfInBounds (56 + i)
              ((lengthBytes lengthHigh lengthLow).getD i 0)) context.messageBlock } =
      sha1ProcessMessageBlock compress
        ((lengthBytes lengthHigh lengthLow).foldl putByte context) := by
  cases context
  simp only at at56
  subst at56
  rfl

/-- A byte and the zeros behind it are put one after the other. -/
theorem fillZeros_putByte (context : SHA1Context) (byte : Byte) (index : Nat) :
    fillZeros (putByte context byte) index =
      (byte :: List.replicate (index - (context.messageBlockIndex + 1)) 0).foldl putByte context :=
  rfl

/-- The context in front of the length: the one bit and the zeros behind the message. -/
def paddedFront (context : SHA1Context) : SHA1Context :=
  if 55 < context.messageBlockIndex then
    fillZeros (sha1ProcessMessageBlock compress (fillZeros (putByte context 0x80) 64)) 56
  else fillZeros (putByte context 0x80) 56

theorem paddedFront_bits (context : SHA1Context) :
    (paddedFront compress context).lengthLow = context.lengthLow ∧
      (paddedFront compress context).lengthHigh = context.lengthHigh := by
  have put := fun (index : Nat) => putBytes_fields
    (0x80 :: List.replicate (index - (context.messageBlockIndex + 1)) 0) context
  unfold paddedFront
  split
  · rw [fillZeros_putByte, fillZeros]
    have zeros := putBytes_fields (List.replicate (56 - (sha1ProcessMessageBlock compress
      ((0x80 :: List.replicate (64 - (context.messageBlockIndex + 1)) 0).foldl putByte
        context)).messageBlockIndex) 0) (sha1ProcessMessageBlock compress
      ((0x80 :: List.replicate (64 - (context.messageBlockIndex + 1)) 0).foldl putByte context))
    exact ⟨zeros.1.trans (put 64).1, zeros.2.trans (put 64).2⟩
  · exact put 56

theorem paddedFront_holds (holds : Holds context hash) (room : hash.pending.length < 64) :
    Holds (paddedFront compress context)
      (hash.absorb 64 compress (0x80 :: List.replicate ((119 - hash.pending.length) % 64) 0)) := by
  unfold paddedFront
  rw [holds.index, fillZeros_putByte, fillZeros_putByte, holds.index]
  by_cases long : 55 < hash.pending.length
  · -- The first zeros complete the block; the second ones start the last block.
    rw [if_pos long]
    have zeros : (119 - hash.pending.length) % 64 = (64 - (hash.pending.length + 1)) + 56 := by
      omega
    have first := putBytes_full compress
      (0x80 :: List.replicate (64 - (hash.pending.length + 1)) 0) (List.cons_ne_nil _ _) holds
      (by simp only [List.length_cons, List.length_replicate]; omega)
    have emptied := first.index
    rw [sha1ProcessMessageBlock] at emptied
    have rest := (putBytes_short compress (List.replicate 56 0) first
      (by rw [← emptied]; simp)).1
    rw [zeros, List.replicate_add, ← List.cons_append, absorb_append]
    exact rest
  · rw [if_neg long]
    have zeros : (119 - hash.pending.length) % 64 = 56 - (hash.pending.length + 1) := by omega
    rw [zeros]
    exact (putBytes_short compress _ holds
      (by simp only [List.length_cons, List.length_replicate]; omega)).1

/-- `SHA1PadMessage` absorbs the padding. -/
theorem sha1PadMessage_holds (holds : Holds context hash) (room : hash.pending.length < 64)
    {length : Nat} (left : hash.pending.length = length % 64) :
    (sha1PadMessage compress context).intermediateHash =
      (hash.absorb 64 compress (padding context.bits length)).state := by
  have front := paddedFront_holds compress holds room
  obtain ⟨low, high⟩ := paddedFront_bits compress context
  have count : (hash.absorb 64 compress
      (0x80 :: List.replicate ((119 - hash.pending.length) % 64) 0)).pending.length = 56 := by
    rw [length_absorb _ room, List.length_cons, List.length_replicate]
    omega
  have whole := putBytes_full compress (bigEndian64 context.bits) (by simp [bigEndian64]) front
    (by rw [count]; simp [bigEndian64])
  have placed := processLength compress (paddedFront compress context) (front.index.trans count)
    (paddedFront compress context).lengthHigh (paddedFront compress context).lengthLow
  have written : lengthBytes (paddedFront compress context).lengthHigh
      (paddedFront compress context).lengthLow = bigEndian64 context.bits := by
    rw [low, high, lengthBytes_eq]
  rw [padding, ← left, ← List.cons_append, absorb_append, ← whole.state, ← written, ← placed]
  rfl

/-- `SHA1Result` gives the hash of everything put in since the context was in `initial`. -/
theorem sha1Result_digest {initial : HashState} {counted : Nat} {message : List Byte}
    (collects : Collects context ((fresh initial).absorb 64 compress message)
      (counted + 8 * message.length)) (digest : Vector Byte 20) :
    (sha1Result compress context digest).2 = sha1From compress initial counted message := by
  have room : (fresh initial : Absorbing HashState Byte).pending.length < 64 := by simp [fresh]
  have left :
      ((fresh initial).absorb 64 compress message).pending.length = message.length % 64 := by
    rw [length_absorb message room]
    simp [fresh]
  have padded := sha1PadMessage_holds compress collects.holds (length_absorb_lt message room) left
  simp only [sha1Result, collects.corrupted, collects.computed]
  rw [sha1From, absorb_append, ← collects.counted]
  exact congrArg hashBytes padded

end Padding

end Cromwell.Crypt
