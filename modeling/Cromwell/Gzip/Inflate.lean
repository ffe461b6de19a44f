import Cromwell.Gzip.HuftBuild
import Cromwell.Std.SlidingWindow

/-!
# Inflate

The functions of `inflate.c` work on copies of the bit buffer and of the window
position, which they put back where they succeed; where one fails, the whole run ends
in an endless loop. The model works on the variables themselves. A loop that no
variable counts has a bound on its passes.
-/

namespace Cromwell.Gzip

open Cromwell.Std

def border : List Nat := [16, 17, 18, 0, 8, 7, 9, 6, 10, 5, 11, 4, 12, 3, 13, 2, 14, 1, 15]

def cplens : List Nat :=
  [3, 4, 5, 6, 7, 8, 9, 10, 11, 13, 15, 17, 19, 23, 27, 31,
    35, 43, 51, 59, 67, 83, 99, 115, 131, 163, 195, 227, 258, 0, 0]

def cplext : List Nat :=
  [0, 0, 0, 0, 0, 0, 0, 0, 1, 1, 1, 1, 2, 2, 2, 2,
    3, 3, 3, 3, 4, 4, 4, 4, 5, 5, 5, 5, 0, 99, 99]

def cpdist : List Nat :=
  [1, 2, 3, 4, 5, 7, 9, 13, 17, 25, 33, 49, 65, 97, 129, 193,
    257, 385, 513, 769, 1025, 1537, 2049, 3073, 4097, 6145,
    8193, 12289, 16385, 24577]

def cpdext : List Nat :=
  [0, 0, 0, 0, 1, 1, 2, 2, 3, 3, 4, 4, 5, 5, 6, 6,
    7, 7, 8, 8, 9, 9, 10, 10, 11, 11,
    12, 12, 13, 13]

def maskBits : List Nat :=
  [0x0000,
    0x0001, 0x0003, 0x0007, 0x000f, 0x001f, 0x003f, 0x007f, 0x00ff,
    0x01ff, 0x03ff, 0x07ff, 0x0fff, 0x1fff, 0x3fff, 0x7fff, 0xffff]

def lbits : Nat := 9
def dbits : Nat := 6

/-! ## Bits -/

/-- A pass of `while(k<(n)){b|=((ulg)NEXTBYTE())<<k;k+=8;}`. -/
def needByte (n : Nat) : Program State (Pass Unit Unit) := do
  if (← Program.look State.bk) < n then
    let byte ← getByte
    Program.alter fun s =>
      { s with bb := (s.bb ||| byte.toNat <<< s.bk) % 2 ^ 32, bk := s.bk + 8 }
    return .next ()
  else return .leave ()

/-- `NEEDBITS(n)` -/
def needBits (n : Nat) : Program State Unit := Program.loop (fun _ => needByte n) (n + 1) ()

/-- `DUMPBITS(n)` -/
def dumpBits (n : Nat) : Program State Unit := Program.alter fun s =>
  { s with bb := s.bb >>> n, bk := (s.bk + 2 ^ 32 - n) % 2 ^ 32 }

/-- `b & mask_bits[n]` -/
def peekBits (n : Nat) : Program State Nat := Program.look fun s => s.bb &&& maskBits.getD n 0

/-- `NEEDBITS(n)`, the bits, and `DUMPBITS(n)`. -/
def takeBits (n : Nat) : Program State Nat := do
  needBits n
  let value ← peekBits n
  dumpBits n
  return value

/-- The entry of a table. -/
def entryAt (table index : Nat) : Program State Huft :=
  Program.look fun s => s.tables table index

/-! ## Output -/

/-- `if (w == WSIZE) { flush_output(w); w = 0; }` -/
def flushFull : Program State Unit := do
  if (← Program.look State.outcnt) = wsize then flushWindow

/-- `slide[w++] = byte;`, and the window is flushed when it is full. -/
def putByte (byte : Byte) : Program State Unit := do
  Program.alter fun s => { s with window := s.window.set s.outcnt byte, outcnt := s.outcnt + 1 }
  flushFull

/-! ## Codes -/

/-- A pass of `do { ... } while ((e = (t = ...)->e) > 16)` and the test before it: on to the
next table, or the entry found, or none if the code is not used. -/
def lookUpPass (t : Huft) : Program State (Pass Huft (Option Huft)) := do
  if t.e > 16 then
    if t.e = 99 then return .leave none
    else
      dumpBits t.b
      needBits (t.e - 16)
      return .next (← entryAt t.v (← peekBits (t.e - 16)))
  else return .leave (some t)

/-- Look a code up from a table of `bits` bits on. -/
def lookUp (fuel table bits : Nat) : Program State (Option Huft) := do
  needBits bits
  let t ← entryAt table (← peekBits bits)
  Program.loop lookUpPass fuel t

/-- `e` bytes of the window from `d` to `w`: with `memcpy`, or in the slow loop where
`memcpy` would overlap. The test assumes unsigned comparison. -/
def copyPiece (w d e : Nat) (window : Memory) : Memory :=
  if (w + 2 ^ 32 - d) % 2 ^ 32 ≥ e then window.memcpy w window d e else copyForward w d e window

/-- The bytes that are copied at once where `n` are left, up to the end of the window. -/
def pieceLength (w d n : Nat) : Nat :=
  let e := wsize - if d > w then d else w
  if e > n then n else e

/-- A pass of the loop that copies; `n` bytes are left, and `d` is where the next one is. -/
def copyPass (copy : Nat × Nat) : Program State (Pass (Nat × Nat) Unit) := do
  let w ← Program.look State.outcnt
  let d := copy.2 &&& (wsize - 1)
  let e := pieceLength w d copy.1
  Program.alter fun s => { s with window := copyPiece w d e s.window, outcnt := w + e }
  flushFull
  if copy.1 - e ≠ 0 then return .next (copy.1 - e, d + e) else return .leave ()

/-- `do { ... } while (n);` -/
def copyBytes (fuel n d : Nat) : Program State Unit := Program.loop copyPass fuel (n, d)

/-- A pass of `for (;;)` in `inflate_codes`. -/
def inflateCodesPass (fuel tl td bl bd : Nat) : Program State (Pass Unit Nat) := do
  match ← lookUp fuel tl bl with
  | none => return .leave 1
  | some t =>
    dumpBits t.b
    if t.e = 16 then
      putByte (UInt8.ofNat t.n)
      return .next ()
    else if t.e = 15 then return .leave 0
    else
      let extra ← takeBits t.e
      let n := t.n + extra
      match ← lookUp fuel td bd with
      | none => return .leave 1
      | some t =>
        dumpBits t.b
        needBits t.e
        let extra ← peekBits t.e
        let w ← Program.look State.outcnt
        dumpBits t.e
        copyBytes fuel n ((w + 2 * 2 ^ 32 - t.n - extra) % 2 ^ 32)
        return .next ()

/-- `inflate_codes` -/
def inflateCodes (fuel tl td bl bd : Nat) : Program State Nat :=
  Program.loop (fun _ => inflateCodesPass fuel tl td bl bd) fuel ()

/-! ## Blocks -/

/-- `while (n--)` -/
def storedBytes : (n : Nat) → Program State Unit
  | 0 => return ()
  | n + 1 => do
    needBits 8
    let byte ← Program.look State.bb
    putByte (UInt8.ofNat byte)
    dumpBits 8
    storedBytes n

/-- `inflate_stored` -/
def inflateStored : Program State Nat := do
  -- go to byte boundary
  let k ← Program.look State.bk
  dumpBits (k % 8)
  needBits 16
  let n ← Program.look fun s => s.bb % 2 ^ 16
  dumpBits 16
  needBits 16
  let complement ← Program.look fun s => 0xffff - s.bb % 2 ^ 16
  if n ≠ complement then return 1
  else
    dumpBits 16
    storedBytes n
    return 0

/-- The lengths of the fixed literal codes. -/
def fixedLengths : List Nat :=
  List.replicate 144 8 ++ List.replicate 112 9 ++ List.replicate 24 7 ++ List.replicate 8 8

/-- The lengths of the fixed distance codes. -/
def fixedDistances : List Nat := List.replicate 30 5

/-- `inflate_fixed` -/
def inflateFixed (fuel : Nat) : Program State Nat := do
  let literals ← huftBuild fixedLengths 257 cplens cplext 7
  if literals.result ≠ 0 then return literals.result
  else
    let distances ← huftBuild fixedDistances 0 cpdist cpdext 5
    if distances.result > 1 then return distances.result
    else
      if (← inflateCodes fuel literals.t distances.t literals.m distances.m) ≠ 0 then return 1
      else return 0

/-- `for (j = 0; j < nb; j++) { NEEDBITS(3) ll[border[j]] = (unsigned)b & 7; DUMPBITS(3) }` and
zeros for the rest, for the entries of `border` that are left. -/
def readBorder : (nb : Nat) → (border : List Nat) → (ll : Nat → Nat) → Program State (Nat → Nat)
  | _, [], ll => return ll
  | 0, j :: border, ll => readBorder 0 border (Function.update ll j 0)
  | nb + 1, j :: border, ll => do
    let length ← takeBits 3
    readBorder nb border (Function.update ll j length)

/-- The lengths that have been read, and the last one. -/
structure Lengths where
  ll : Nat → Nat
  i : Nat
  l : Nat

/-- `while (j--) ll[i++] = length;` -/
def repeatLength (length : Nat) : (j : Nat) → Lengths → Lengths
  | 0, lengths => lengths
  | j + 1, lengths => repeatLength length j
    { lengths with ll := Function.update lengths.ll lengths.i length, i := lengths.i + 1 }

/-- A pass of the loop that reads `n` lengths; it leaves with none if they are too many. -/
def readLengthsPass (n tl bl : Nat) (lengths : Lengths) :
    Program State (Pass Lengths (Option (Nat → Nat))) := do
  if lengths.i < n then
    needBits bl
    let td ← entryAt tl (← peekBits bl)
    dumpBits td.b
    let j := td.n
    if j < 16 then
      return .next { repeatLength j 1 lengths with l := j }
    else if j = 16 then
      let j := 3 + (← takeBits 2)
      if lengths.i + j > n then return .leave none
      else return .next (repeatLength lengths.l j lengths)
    else if j = 17 then
      let j := 3 + (← takeBits 3)
      if lengths.i + j > n then return .leave none
      else return .next { repeatLength 0 j lengths with l := 0 }
    else
      let j := 11 + (← takeBits 7)
      if lengths.i + j > n then return .leave none
      else return .next { repeatLength 0 j lengths with l := 0 }
  else return .leave (some lengths.ll)

/-- The tables of a block, or an error. -/
def buildTrees (ll : Nat → Nat) (nl nd : Nat) : Program State (Except Nat (Built × Built)) := do
  let literals ← huftBuild ((List.range nl).map ll) 257 cplens cplext lbits
  if literals.result ≠ 0 then
    if literals.result = 1 then error else return .error literals.result
  else
    let distances ← huftBuild ((List.range nd).map fun k => ll (nl + k)) 0 cpdist cpdext dbits
    if distances.result ≠ 0 then
      if distances.result = 1 then error else return .error distances.result
    else return .ok (literals, distances)

/-- `inflate_dynamic` -/
def inflateDynamic (fuel : Nat) : Program State Nat := do
  let nl := 257 + (← takeBits 5)
  let nd := 1 + (← takeBits 5)
  let nb := 4 + (← takeBits 4)
  if nl > 286 ∨ nd > 30 then return 1
  else
    let ll ← readBorder nb border fun _ => 0
    let tree ← huftBuild ((List.range 19).map ll) 19 [] [] 7
    if tree.result ≠ 0 then return tree.result
    else
      match ← Program.loop (readLengthsPass (nl + nd) tree.t tree.m) fuel
          { ll, i := 0, l := 0 } with
      | none => return 1
      | some ll =>
        match ← buildTrees ll nl nd with
        | .error result => return result
        | .ok (literals, distances) =>
          if (← inflateCodes fuel literals.t distances.t literals.m distances.m) ≠ 0 then return 1
          else return 0

/-- `inflate_block`: the last block flag, and the result. -/
def inflateBlock (fuel : Nat) : Program State (Nat × Nat) := do
  let e ← takeBits 1
  let t ← takeBits 2
  if t = 2 then return (e, ← inflateDynamic fuel)
  else if t = 0 then return (e, ← inflateStored)
  else if t = 1 then return (e, ← inflateFixed fuel)
  else return (e, 2)

/-- A pass of `do { ... } while (!e);` -/
def inflatePass (fuel : Nat) : Program State (Pass Unit Nat) := do
  let ptr ← gzipMark
  let (e, r) ← inflateBlock fuel
  gzipRelease ptr
  if r ≠ 0 then return .leave r
  else if e = 0 then return .next ()
  else return .leave 0

/-- A pass of `while (bk >= 8) { bk -= 8; inptr--; }` -/
def undoPass : Program State (Pass Unit Unit) := do
  if 8 ≤ (← Program.look State.bk) then
    Program.alter fun s => { s with bk := s.bk - 8, inptr := s.inptr - 1 }
    return .next ()
  else return .leave ()

/-- `inflate` -/
def inflate (fuel : Nat) : Program State Nat := do
  Program.alter fun s => { s with outcnt := 0, bk := 0, bb := 0 }
  let r ← Program.loop (fun _ => inflatePass fuel) fuel ()
  if r ≠ 0 then return r
  else
    Program.loop (fun _ => undoPass) fuel ()
    flushWindow
    return 0

end Cromwell.Gzip
