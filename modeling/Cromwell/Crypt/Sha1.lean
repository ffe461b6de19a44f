import Cromwell.Std.BlockHash
import Cromwell.Std.Memory

/-!
# SHA-1

The context functions of `sha1.c`, and the hash they compute: the message with a
one bit, zeros and its length appended, compressed block by block. The
compression function is a parameter of everything but its own definition. A hash
may also be continued from a state that already counts some bits, which is how
the keyed hashes of the EEPROM are computed. The return codes of the context
functions are never looked at and are left out.
-/

namespace Cromwell.Crypt

open Cromwell.Std

/-- `Intermediate_Hash`. -/
abbrev HashState := Vector UInt32 5

/-- The effect of `SHA1ProcessMessageBlock` on the state, for a block of 64 bytes. -/
abbrev Compress := HashState → List Byte → HashState

/-! ## The compression function -/

/-- `SHA1CircularShift`. -/
def circularShift (bits word : UInt32) : UInt32 := (word <<< bits) ||| (word >>> (32 - bits))

/-- Word `t` of the message schedule, from the words before it. -/
def scheduleWord (schedule : Array UInt32) (t : Nat) : UInt32 :=
  circularShift 1 (schedule[t - 3]! ^^^ schedule[t - 8]! ^^^ schedule[t - 14]! ^^^
    schedule[t - 16]!)

/-- The first 16 words of the schedule are the big-endian words of the block. -/
def blockWord (block : List Byte) (t : Nat) : UInt32 :=
  ((block.getD (t * 4) 0).toUInt32 <<< 24) ||| ((block.getD (t * 4 + 1) 0).toUInt32 <<< 16) |||
    ((block.getD (t * 4 + 2) 0).toUInt32 <<< 8) ||| (block.getD (t * 4 + 3) 0).toUInt32

/-- The 80 words of the schedule. -/
def messageSchedule (block : List Byte) : Array UInt32 :=
  (List.range' 16 64).foldl (fun schedule t => schedule.push (scheduleWord schedule t))
    ((List.range 16).map (blockWord block)).toArray

/-- The round function and constant of round `t`. -/
def roundTerm (t : Nat) (b c d : UInt32) : UInt32 :=
  if t < 20 then ((b &&& c) ||| (~~~b &&& d)) + 0x5A827999
  else if t < 40 then (b ^^^ c ^^^ d) + 0x6ED9EBA1
  else if t < 60 then ((b &&& c) ||| (b &&& d) ||| (c &&& d)) + 0x8F1BBCDC
  else (b ^^^ c ^^^ d) + 0xCA62C1D6

/-- One round on the word buffers `A` to `E`. -/
def sha1Round (schedule : Array UInt32) (words : HashState) (t : Nat) : HashState :=
  let temp := circularShift 5 words[0] + roundTerm t words[1] words[2] words[3] + words[4] +
    schedule[t]!
  #v[temp, words[0], circularShift 30 words[1], words[2], words[3]]

/-- What `SHA1ProcessMessageBlock` makes of the state. -/
def sha1Compress : Compress := fun state block =>
  let words := (List.range 80).foldl (sha1Round (messageSchedule block)) state
  Vector.zipWith (· + ·) state words

/-! ## The context functions -/

/-- `SHA1Context`. -/
structure SHA1Context where
  intermediateHash : HashState
  lengthLow : UInt32
  lengthHigh : UInt32
  messageBlockIndex : Nat
  messageBlock : Vector Byte 64
  computed : Bool
  corrupted : Bool
  deriving Repr, Inhabited, DecidableEq

/-- The state `SHA1Reset` starts from. -/
def sha1Initial : HashState := #v[0x67452301, 0xEFCDAB89, 0x98BADCFE, 0x10325476, 0xC3D2E1F0]

/-- `SHA1Reset`; the message block keeps what it held. -/
def sha1Reset (context : SHA1Context) : SHA1Context :=
  { context with
    lengthLow := 0, lengthHigh := 0, messageBlockIndex := 0, intermediateHash := sha1Initial
    computed := false, corrupted := false }

/-- The digest bytes of a state, most significant first. -/
def hashBytes (state : HashState) : Vector Byte 20 :=
  Vector.ofFn fun i : Fin 20 => (state[i.val / 4] >>> (8 * (3 - i.val % 4)).toUInt32).toUInt8

section Context

variable (compress : Compress)

/-- `SHA1ProcessMessageBlock`. -/
def sha1ProcessMessageBlock (context : SHA1Context) : SHA1Context :=
  { context with
    intermediateHash := compress context.intermediateHash context.messageBlock.toList
    messageBlockIndex := 0 }

/-- `Message_Block[Message_Block_Index++] = byte`. -/
def putByte (context : SHA1Context) (byte : Byte) : SHA1Context :=
  { context with
    messageBlock := context.messageBlock.setIfInBounds context.messageBlockIndex byte
    messageBlockIndex := context.messageBlockIndex + 1 }

/-- Eight more bits; a carry out of the high word means the message is too long. -/
def countByte (context : SHA1Context) : SHA1Context :=
  let context := { context with lengthLow := context.lengthLow + 8 }
  if context.lengthLow = 0 then
    let context := { context with lengthHigh := context.lengthHigh + 1 }
    if context.lengthHigh = 0 then { context with corrupted := true } else context
  else context

/-- One pass of the loop of `SHA1Input`. -/
def inputByte (context : SHA1Context) (byte : Byte) : SHA1Context :=
  let context := countByte (putByte context byte)
  if context.messageBlockIndex = 64 then sha1ProcessMessageBlock compress context else context

/-- The loop of `SHA1Input`. -/
def inputBytes (context : SHA1Context) : List Byte → SHA1Context
  | [] => context
  | byte :: rest =>
    if context.corrupted then context else inputBytes (inputByte compress context byte) rest

/-- `SHA1Input`. -/
def sha1Input (context : SHA1Context) (message : List Byte) : SHA1Context :=
  if message = [] then context
  else if context.computed then { context with corrupted := true }
  else if context.corrupted then context
  else inputBytes compress context message

/-- Zeros up to an index of the message block. -/
def fillZeros (context : SHA1Context) (index : Nat) : SHA1Context :=
  (List.replicate (index - context.messageBlockIndex) 0).foldl putByte context

/-- The message length at the end of the last block, most significant byte first. -/
def lengthBytes (lengthHigh lengthLow : UInt32) : List Byte :=
  [(lengthHigh >>> 24).toUInt8, (lengthHigh >>> 16).toUInt8, (lengthHigh >>> 8).toUInt8,
    lengthHigh.toUInt8,
    (lengthLow >>> 24).toUInt8, (lengthLow >>> 16).toUInt8, (lengthLow >>> 8).toUInt8,
    lengthLow.toUInt8]

/-- `SHA1PadMessage`. -/
def sha1PadMessage (context : SHA1Context) : SHA1Context :=
  let context :=
    if 55 < context.messageBlockIndex then
      let context := fillZeros (putByte context 0x80) 64
      fillZeros (sha1ProcessMessageBlock compress context) 56
    else
      fillZeros (putByte context 0x80) 56
  let length := lengthBytes context.lengthHigh context.lengthLow
  -- The length goes to bytes 56 to 63, wherever the index stands.
  let block := (List.range 8).foldl
    (fun block i => block.setIfInBounds (56 + i) (length.getD i 0)) context.messageBlock
  sha1ProcessMessageBlock compress { context with messageBlock := block }

/-- `SHA1Result`; the digest is not written when the message was too long. -/
def sha1Result (context : SHA1Context) (digest : Vector Byte 20) :
    SHA1Context × Vector Byte 20 :=
  if context.corrupted then (context, digest)
  else
    let context :=
      if context.computed then context
      else
        { sha1PadMessage compress context with
          messageBlock := Vector.replicate 64 0, lengthLow := 0, lengthHigh := 0
          computed := true }
    (context, hashBytes context.intermediateHash)

end Context

end Cromwell.Crypt
