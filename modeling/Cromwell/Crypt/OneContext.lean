import Mathlib.Tactic
import Cromwell.Crypt.Hmac

/-!
# Keyed hashes in one context

The inner digest is stored into the message block of the context that hashes it
next, byte by byte, and the outer hash stores every byte back to the place that it
has just read. The digest therefore comes out whole, and each keyed hash is the one
that its definition gives on the concatenated input.
-/

namespace Cromwell.Crypt

open Cromwell.Std

/-! ## A keyed hash, for any hash function -/

/-- A key as long as a block: a longer one is hashed first, zeros follow. -/
def blockKey (hash : List Byte → List Byte) (size : Nat) (key : List Byte) : List Byte :=
  let short := if key.length ≤ size then key else hash key
  short ++ List.replicate (size - short.length) 0

/-- The hash of a text under a key. -/
def keyedHash (hash : List Byte → List Byte) (size : Nat) (key text : List Byte) : List Byte :=
  let inner := hash ((blockKey hash size key).map (· ^^^ 0x36) ++ text)
  hash ((blockKey hash size key).map (· ^^^ 0x5C) ++ inner)

theorem keyPad_eq_blockKey (hash : List Byte → List Byte) {key : List Byte}
    (short : key.length ≤ 0x40) (pad : Byte) :
    keyPad key pad = (blockKey hash 0x40 key).map (· ^^^ pad) := by
  apply List.ext_getElem
  · simp only [length_keyPad, blockKey, if_pos short, List.length_map, List.length_append,
      List.length_replicate]
    omega
  · intro i _ _
    by_cases inside : i < key.length
    · simp [keyPad, blockKey, short, inside]
    · simp [keyPad, blockKey, short, inside, List.getElem_append]

/-! ## The context as source and destination -/

section InPlace

variable (compress : Compress)

/-- One pass of the digest loop of `SHA1Result`, into the message block of the context itself. -/
def storeDigestByte (context : SHA1Context) (i : Nat) : SHA1Context :=
  let word := context.intermediateHash.toArray.getD (i / 4) 0
  { context with
    messageBlock := context.messageBlock.setIfInBounds i
      (word >>> (8 * (3 - i % 4)).toUInt32).toUInt8 }

/-- The digest loop. -/
def storeDigest (context : SHA1Context) : SHA1Context :=
  (List.range 20).foldl storeDigestByte context

/-- `SHA1Result(&context, &context.Message_Block[0])`. -/
def sha1ResultInPlace (context : SHA1Context) : SHA1Context :=
  if context.corrupted then context
  else
    storeDigest <|
      if context.computed then context
      else
        { sha1PadMessage compress context with
          messageBlock := Vector.replicate 64 0, lengthLow := 0, lengthHigh := 0
          computed := true }

/-- The loop of `SHA1Input` with `message_array` in the message block. -/
def inputBytesInPlace (context : SHA1Context) (message_array : Nat) : Nat → SHA1Context
  | 0 => context
  | length + 1 =>
    if context.corrupted then context
    else
      let byte := context.messageBlock.toList.getD message_array 0
      inputBytesInPlace (inputByte compress context byte) (message_array + 1) length

/-- `SHA1Input(&context, &context.Message_Block[0], length)`. -/
def sha1InputInPlace (context : SHA1Context) (length : Nat) : SHA1Context :=
  if length = 0 then context
  else if context.computed then { context with corrupted := true }
  else if context.corrupted then context
  else inputBytesInPlace compress context 0 length

/-- `HMAC_hdd_calculation`, with the digest in the message block. -/
def hmacHddCalculationInPlace (context : SHA1Context) (version : Nat) (result : Vector Byte 20)
    (buffers : List (List Byte)) : Vector Byte 20 :=
  let context := hmac1hddReset version context
  let context := buffers.foldl (sha1Input compress) context
  let context := sha1ResultInPlace compress context
  let context := hmac2hddReset version context
  let context := sha1InputInPlace compress context 0x14
  (sha1Result compress context result).2

end InPlace

/-! ## The digest is stored whole -/

/-- The block after some passes of the digest loop. -/
theorem storeDigest_passes (context : SHA1Context) {count : Nat} (few : count ≤ 20) :
    ∃ block : Vector Byte 64,
      (List.range count).foldl storeDigestByte context =
        { context with messageBlock := block } ∧
      ∀ (j : Nat) (inside : j < 64), block[j] =
        if stored : j < count then (hashBytes context.intermediateHash)[j]
        else context.messageBlock[j] := by
  induction count with
  | zero => exact ⟨context.messageBlock, rfl, fun j _ => rfl⟩
  | succ count ih =>
      obtain ⟨block, reached, bytes⟩ := ih (by omega)
      rw [List.range_succ, List.foldl_append, reached]
      refine ⟨_, rfl, fun j inside => ?_⟩
      rw [Vector.getElem_setIfInBounds inside]
      by_cases here : count = j
      · subst here
        have word : count / 4 < 5 := by omega
        simp [hashBytes, word]
      · have passed : j < count + 1 ↔ j < count := by omega
        simp only [here, if_false, bytes j inside, passed]

theorem storeDigest_eq (context : SHA1Context) : storeDigest context =
    { context with
      messageBlock := overwriteFront context.messageBlock
        (hashBytes context.intermediateHash) } := by
  obtain ⟨block, stored, bytes⟩ := storeDigest_passes context (Nat.le_refl 20)
  have whole : block =
      overwriteFront context.messageBlock (hashBytes context.intermediateHash) := by
    ext j inside
    rw [bytes j inside, overwriteFront, Vector.getElem_ofFn]
  rw [storeDigest, stored, whole]

theorem overwriteFront_blockFront (block : Vector Byte 64) :
    overwriteFront block (blockFront block) = block := by
  ext i inside
  rw [overwriteFront, Vector.getElem_ofFn]
  split
  · simp [blockFront]
  · rfl

variable {compress : Compress}

/-- The digest lands in the front of the block, and nowhere when the message was too long. -/
theorem sha1ResultInPlace_eq (context : SHA1Context) :
    sha1ResultInPlace compress context =
      let (context, inner) := sha1Result compress context (blockFront context.messageBlock)
      { context with messageBlock := overwriteFront context.messageBlock inner } := by
  unfold sha1ResultInPlace sha1Result
  cases context.corrupted with
  | true => simp [overwriteFront_blockFront]
  | false => simp [storeDigest_eq]

/-! ## Every byte is stored back to its place -/

/-- A byte of the block is stored where it was read. -/
theorem putByte_own (context : SHA1Context) :
    putByte context (context.messageBlock.toList.getD context.messageBlockIndex 0) =
      { context with messageBlockIndex := context.messageBlockIndex + 1 } := by
  have same : context.messageBlock.setIfInBounds context.messageBlockIndex
      (context.messageBlock.toList.getD context.messageBlockIndex 0) = context.messageBlock := by
    ext i inside
    rw [Vector.getElem_setIfInBounds inside]
    split
    · next here => simp [here, inside]
    · rfl
  rw [putByte, same]

/-- Short of a full block, a byte of the block changes the counters only. -/
theorem inputByte_own (compress : Compress) (context : SHA1Context)
    (short : context.messageBlockIndex + 1 < 64) :
    (inputByte compress context
      (context.messageBlock.toList.getD context.messageBlockIndex 0)).messageBlock =
        context.messageBlock ∧
    (inputByte compress context
      (context.messageBlock.toList.getD context.messageBlockIndex 0)).messageBlockIndex =
        context.messageBlockIndex + 1 := by
  have kept : ∀ context : SHA1Context,
      (countByte context).messageBlock = context.messageBlock ∧
        (countByte context).messageBlockIndex = context.messageBlockIndex := by
    intro context
    unfold countByte
    dsimp only
    split_ifs <;> exact ⟨rfl, rfl⟩
  obtain ⟨block, index⟩ := kept
    { context with messageBlockIndex := context.messageBlockIndex + 1 }
  have partBlock : (countByte
      { context with messageBlockIndex := context.messageBlockIndex + 1 }).messageBlockIndex ≠
        64 := by
    rw [index]
    exact Nat.ne_of_lt short
  unfold inputByte
  rw [putByte_own, if_neg partBlock]
  exact ⟨block, index⟩

/-- The loop takes the bytes that the block held at its start. -/
theorem inputBytesInPlace_eq (compress : Compress) (length : Nat) (context : SHA1Context)
    (short : context.messageBlockIndex + length < 64) :
    inputBytesInPlace compress context context.messageBlockIndex length =
      inputBytes compress context
        ((context.messageBlock.toList.drop context.messageBlockIndex).take length) := by
  induction length generalizing context with
  | zero => rfl
  | succ length ih =>
      have inside : context.messageBlockIndex < context.messageBlock.toList.length := by
        simp only [Vector.length_toList]
        omega
      obtain ⟨block, index⟩ := inputByte_own compress context (by omega)
      have next := ih (inputByte compress context
        (context.messageBlock.toList.getD context.messageBlockIndex 0)) (by rw [index]; omega)
      rw [block, index] at next
      rw [inputBytesInPlace, next, List.drop_eq_getElem_cons inside, List.take_succ_cons,
        inputBytes, ← List.getElem_eq_getD (h := inside)]

theorem sha1InputInPlace_eq (context : SHA1Context) (length : Nat) (short : length < 64)
    (start : context.messageBlockIndex = 0) :
    sha1InputInPlace compress context length =
      sha1Input compress context (context.messageBlock.toList.take length) := by
  have loop := inputBytesInPlace_eq compress length context (by omega)
  rw [start, List.drop_zero] at loop
  have nothing : context.messageBlock.toList.take length = [] ↔ length = 0 := by
    rw [List.take_eq_nil_iff]
    exact or_iff_left fun empty => by simpa using congrArg List.length empty
  simp only [sha1InputInPlace, sha1Input, nothing, loop]

theorem hmacHddCalculationInPlace_eq (context : SHA1Context) (version : Nat)
    (result : Vector Byte 20) (buffers : List (List Byte)) :
    hmacHddCalculationInPlace compress context version result buffers =
      hmacHddCalculation compress context version result buffers := by
  have front : ∀ block : Vector Byte 64, block.toList.take 0x14 = (blockFront block).toList := by
    intro block
    apply List.ext_getElem
    · simp
    · intro i _ _
      simp [blockFront]
  have hashed : ∀ context : SHA1Context,
      sha1InputInPlace compress (hmac2hddReset version context) 0x14 =
        sha1Input compress (hmac2hddReset version context)
          (blockFront (hmac2hddReset version context).messageBlock).toList := fun context => by
    rw [sha1InputInPlace_eq _ _ (by decide) rfl, front]
  simp only [hmacHddCalculationInPlace, hashed, sha1ResultInPlace_eq]
  rfl

/-! ## What the keyed hashes are -/

/-- A text that `SHA1Input` can be given: its length is an `unsigned`. -/
abbrev Text := { bytes : List Byte // bytes.length < 2 ^ 32 }

/-- The arguments of `HMAC_hdd_calculation`: the version and the result, a pointer and a length for
every buffer, and `NULL`, four bytes each in the memory of a 32-bit machine. -/
structure HddArguments where
  buffers : List Text
  onStack : 4 * (3 + 2 * buffers.length) ≤ 2 ^ 32

/-- The bytes of all buffers. -/
def HddArguments.message (arguments : HddArguments) : List Byte :=
  (arguments.buffers.map Subtype.val).flatten

theorem length_flatten_le (buffers : List Text) :
    (buffers.map Subtype.val).flatten.length ≤ (2 ^ 32 - 1) * buffers.length := by
  induction buffers with
  | nil => exact Nat.le_refl 0
  | cons buffer buffers ih =>
      have counted := buffer.property
      rw [List.map_cons, List.flatten_cons, List.length_append, List.length_cons]
      omega

/-- The bits of a call never overflow the length of the context. -/
theorem HddArguments.short (arguments : HddArguments) :
    512 + 8 * arguments.message.length < 2 ^ 64 := by
  have total := length_flatten_le arguments.buffers
  have room := arguments.onStack
  unfold HddArguments.message
  omega

/-- The keyed hash of the EEPROM continues both hashes of its version over the bytes of all
buffers, and `HMAC_SHA1` is the keyed hash of its two texts together. -/
theorem keyedHashes_correct (compress : Compress) :
    (∀ (context : SHA1Context) (version : Nat) (result : Vector Byte 20)
      (arguments : HddArguments),
        hmacHddCalculationInPlace compress context version result
            (arguments.buffers.map Subtype.val) =
          sha1From compress (hmac2hddState version) 512
            (sha1From compress (hmac1hddState version) 512 arguments.message).toList) ∧
    (∀ (version : Nat) (arguments others : HddArguments), arguments.message = others.message →
      ∀ (context otherContext : SHA1Context) (result otherResult : Vector Byte 20),
        hmacHddCalculationInPlace compress context version result
            (arguments.buffers.map Subtype.val) =
          hmacHddCalculationInPlace compress otherContext version otherResult
            (others.buffers.map Subtype.val)) ∧
    ∀ (context : SHA1Context) (result : Vector Byte 20) (key : List Byte) (text1 text2 : Text),
      key.length ≤ 64 →
        (hmacSHA1 compress context result key text1.val text2.val).toList =
          keyedHash (fun message => (sha1 compress message).toList) 64 key
            (text1.val ++ text2.val) := by
  have continued : ∀ (context : SHA1Context) (version : Nat) (result : Vector Byte 20)
      (arguments : HddArguments),
        hmacHddCalculationInPlace compress context version result
            (arguments.buffers.map Subtype.val) =
          hmacHdd compress version arguments.message := by
    intro context version result arguments
    rw [hmacHddCalculationInPlace_eq]
    exact hmacHddCalculation_counted context version result _ arguments.short
  refine ⟨continued, ?_, ?_⟩
  · intro version arguments others same context otherContext result otherResult
    rw [continued, continued, same]
  · intro context result key text1 text2 short
    have first := text1.property
    have second := text2.property
    rw [hmacSHA1_eq context result key text1.val text2.val (by omega), hmac, keyedHash,
      keyPad_eq_blockKey (fun message => (sha1 compress message).toList) short,
      keyPad_eq_blockKey (fun message => (sha1 compress message).toList) short]

/-- Two ways to cut a message, and a key of three bytes. -/
theorem keyedHashes_correct_split :
    hmacHddCalculationInPlace sha1Compress default 10 (Vector.replicate 20 0) [[1], [2, 3]] =
      hmacHddCalculationInPlace sha1Compress default 10 (Vector.replicate 20 1) [[1, 2], [3]] ∧
    (hmacSHA1 sha1Compress default (Vector.replicate 20 0) [1, 2, 3] [4] [5]).toList =
      keyedHash (fun message => (sha1 sha1Compress message).toList) 64 [1, 2, 3] [4, 5] :=
  ⟨(keyedHashes_correct sha1Compress).2.1 10
      ⟨[⟨[1], by decide⟩, ⟨[2, 3], by decide⟩], by decide⟩
      ⟨[⟨[1, 2], by decide⟩, ⟨[3], by decide⟩], by decide⟩ rfl default default _ _,
    (keyedHashes_correct sha1Compress).2.2 default _ [1, 2, 3] ⟨[4], by decide⟩
      ⟨[5], by decide⟩ (by decide)⟩

end Cromwell.Crypt
