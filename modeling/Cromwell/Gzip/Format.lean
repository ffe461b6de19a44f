import Cromwell.Gzip.Lookups
import Cromwell.Gzip.Copies

/-!
# Compressed data

What compressed data says, apart from how it is read: a row of blocks, each with its
bytes as they are or as pieces coded with a fixed code or with one of its own. A piece
is a byte or a copy of what came before. The lengths of the codes of a block are coded
themselves.
-/

namespace Cromwell.Gzip

open Cromwell.Std

/-! ## Pieces -/

/-- The extra bits of a length symbol, numbered from 0. -/
def lengthExtraBits (symbol : Nat) : Nat := if symbol = 28 then 0 else symbol / 4 - 1

/-- The least length of a symbol: they adjoin, but for the last. -/
def leastLength : Nat → Nat
  | 0 => 3
  | symbol + 1 => if symbol = 27 then 258 else leastLength symbol + 2 ^ lengthExtraBits symbol

/-- The extra bits of a distance symbol. -/
def distanceExtraBits (symbol : Nat) : Nat := symbol / 2 - 1

/-- The least distance of a symbol. -/
def leastDistance : Nat → Nat
  | 0 => 1
  | symbol + 1 => leastDistance symbol + 2 ^ distanceExtraBits symbol

/-- A copy, as the symbols and the extra bits of its length and its distance. -/
structure Copy where
  length : Fin 29
  lengthExtra : Fin (2 ^ lengthExtraBits length)
  distance : Fin 30
  distanceExtra : Fin (2 ^ distanceExtraBits distance)

/-- How many bytes are copied. -/
def Copy.count (copy : Copy) : Nat := leastLength copy.length + copy.lengthExtra

/-- How far back they are. -/
def Copy.back (copy : Copy) : Nat := leastDistance copy.distance + copy.distanceExtra

inductive Token where
  | literal (byte : Byte)
  | copied (copy : Copy)

namespace Token

/-- What a piece adds to the data. -/
def expand (history : List Byte) : Token → List Byte
  | literal byte => history ++ [byte]
  | copied copy => copyBack copy.back copy.count history

/-- A copy begins in the data. -/
def Reaches (history : List Byte) : Token → Prop
  | literal _ => True
  | copied copy => copy.back ≤ history.length

/-- The symbols of a piece have words. -/
def Coded (lb db : List Nat) : Token → Prop
  | literal byte => lb.getD byte.toNat 0 ≠ 0
  | copied copy => lb.getD (257 + copy.length) 0 ≠ 0 ∧ db.getD copy.distance 0 ≠ 0

/-- A piece in the codes with some lengths. -/
def bits (lb db : List Nat) : Token → List Bool
  | literal byte => wordOf lb byte.toNat
  | copied copy =>
    wordOf lb (257 + copy.length) ++ (numberBits (lengthExtraBits copy.length) copy.lengthExtra ++
      (wordOf db copy.distance ++ numberBits (distanceExtraBits copy.distance) copy.distanceExtra))

end Token

/-- What some pieces add to the data. -/
def expandAll (history : List Byte) (tokens : List Token) : List Byte :=
  tokens.foldl Token.expand history

/-- Every copy begins in the data before it. -/
def AllReach (history : List Byte) : List Token → Prop
  | [] => True
  | token :: rest => token.Reaches history ∧ AllReach (token.expand history) rest

/-- The pieces of a block, and the word for its end. -/
def tokensBits (lb db : List Nat) (tokens : List Token) : List Bool :=
  tokens.flatMap (Token.bits lb db) ++ wordOf lb 256

/-! ## Lengths of codes -/

/-- Lengths of codes are coded as themselves or as runs. -/
inductive LengthItem where
  | single (length : Fin 16)
  | again (more : Fin 4)
  | zeros (more : Fin 8)
  | manyZeros (more : Fin 128)

namespace LengthItem

def symbol : LengthItem → Nat
  | single length => length
  | again _ => 16
  | zeros _ => 17
  | manyZeros _ => 18

/-- The bits behind the word of an item. -/
def extraBits : LengthItem → List Bool
  | single _ => []
  | again more => numberBits 2 more
  | zeros more => numberBits 3 more
  | manyZeros more => numberBits 7 more

/-- An item in the code for the lengths. -/
def bits (cb : List Nat) (item : LengthItem) : List Bool :=
  wordOf cb item.symbol ++ item.extraBits

/-- The lengths of an item, the one before being known. -/
def expand (last : Nat) : LengthItem → List Nat
  | single length => [length]
  | again more => List.replicate (3 + more) last
  | zeros more => List.replicate (3 + more) 0
  | manyZeros more => List.replicate (11 + more) 0

/-- The last length of an item. -/
def next (last : Nat) : LengthItem → Nat
  | single length => length
  | again _ => last
  | zeros _ => 0
  | manyZeros _ => 0

end LengthItem

/-- The lengths of some items. -/
def expandItems (last : Nat) : List LengthItem → List Nat
  | [] => []
  | item :: rest => item.expand last ++ expandItems (item.next last) rest

/-- The lengths of the code for the lengths, which are given in another order. -/
def lengthCode (order : List Nat) : List Nat :=
  (List.range 19).map fun symbol => order.getD (border.idxOf symbol) 0

/-- What stands before the pieces of a block that has its own codes. -/
structure Header where
  literals : List Nat
  distances : List Nat
  order : List Nat
  items : List LengthItem
  literalsCount : 257 ≤ literals.length ∧ literals.length ≤ 286
  distancesCount : 1 ≤ distances.length ∧ distances.length ≤ 30
  orderCount : 4 ≤ order.length ∧ order.length ≤ 19
  orderBound : ∀ length ∈ order, length < 8
  lengths : expandItems 0 items = literals ++ distances
  orderUsable : Usable (lengthCode order)
  itemsCoded : ∀ item ∈ items, (lengthCode order).getD item.symbol 0 ≠ 0
  literalsUsable : Usable literals
  ended : literals.getD 256 0 ≠ 0
  /-- A block without copies may have no distances. -/
  distancesUsable : Usable distances ∨ ∀ length ∈ distances, length = 0

def Header.bits (header : Header) : List Bool :=
  numberBits 5 (header.literals.length - 257) ++ (numberBits 5 (header.distances.length - 1) ++
    (numberBits 4 (header.order.length - 4) ++ (header.order.flatMap (numberBits 3) ++
      header.items.flatMap (LengthItem.bits (lengthCode header.order)))))

/-! ## Blocks -/

inductive Block where
  | stored (padding : List Bool) (bytes : List Byte)
  | fixed (tokens : List Token)
  | dynamic (header : Header) (tokens : List Token)

namespace Block

/-- What a block adds to the data. -/
def expand (history : List Byte) : Block → List Byte
  | stored _ bytes => history ++ bytes
  | fixed tokens => expandAll history tokens
  | dynamic _ tokens => expandAll history tokens

/-- A block may stand at a position of the bits, behind some data. -/
def Fits (position : Nat) (history : List Byte) : Block → Prop
  | stored padding bytes => padding.length < 8 ∧ (position + 3 + padding.length) % 8 = 0 ∧
    bytes.length < 2 ^ 16
  | fixed tokens => AllReach history tokens ∧
    ∀ token ∈ tokens, token.Coded fixedLengths fixedDistances
  | dynamic header tokens => AllReach history tokens ∧
    ∀ token ∈ tokens, token.Coded header.literals header.distances

/-- The number of a kind of block. -/
def kind : Block → Nat
  | stored _ _ => 0
  | fixed _ => 1
  | dynamic _ _ => 2

/-- A block behind the bits that say its kind. -/
def body : Block → List Bool
  | stored padding bytes => padding ++ (numberBits 16 bytes.length ++
    (numberBits 16 (0xffff - bytes.length) ++ bytes.flatMap byteBits))
  | fixed tokens => tokensBits fixedLengths fixedDistances tokens
  | dynamic header tokens =>
    header.bits ++ tokensBits header.literals header.distances tokens

/-- A block; `last` is 1 in the last one. -/
def bits (last : Nat) (block : Block) : List Bool :=
  numberBits 1 last ++ (numberBits 2 block.kind ++ block.body)

end Block

/-- What some blocks make of the data before them. -/
def expandBlocks (history : List Byte) (blocks : List Block) : List Byte :=
  blocks.foldl Block.expand history

/-- A row of blocks, the last one marked. -/
def blocksBits : List Block → List Bool
  | [] => []
  | [block] => block.bits 1
  | block :: rest => block.bits 0 ++ blocksBits rest

/-- Each block may stand where it does. -/
def AllFit (position : Nat) (history : List Byte) : List Block → Prop
  | [] => True
  | block :: rest => block.Fits position history ∧
    AllFit (position + (block.bits 0).length) (block.expand history) rest

/-! ## What the tables of the decoder say -/

section Tables

theorem leastLength_eq (symbol : Fin 29) : cplens.getD symbol 0 = leastLength symbol := by
  revert symbol
  decide

theorem lengthExtraBits_eq (symbol : Fin 29) : cplext.getD symbol 0 = lengthExtraBits symbol := by
  revert symbol
  decide

theorem leastDistance_eq (symbol : Fin 30) : cpdist.getD symbol 0 = leastDistance symbol := by
  revert symbol
  decide

theorem distanceExtraBits_eq (symbol : Fin 30) :
    cpdext.getD symbol 0 = distanceExtraBits symbol := by
  revert symbol
  decide

end Tables

end Cromwell.Gzip
