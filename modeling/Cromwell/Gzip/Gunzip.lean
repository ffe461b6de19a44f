import Cromwell.Gzip.Inflate

/-!
# Gunzip

`gunzip` reads the header of a member, inflates what is behind it, and checks the
code and the length of the output against the trailer. `decompress_kernel` returns
only if every check passes, since every failure ends in `error`.
-/

namespace Cromwell.Gzip

open Cromwell.Std

def continuationFlag : Nat := 0x02
def extraFieldFlag : Nat := 0x04
def origNameFlag : Nat := 0x08
def commentFlag : Nat := 0x10
def encryptedFlag : Nat := 0x20
def reservedFlag : Nat := 0xC0

/-- `while (len--) (void)get_byte();` -/
def skipBytes : (len : Nat) → Program State Unit
  | 0 => return ()
  | len + 1 => do
    let _ ← getByte
    skipBytes len

/-- `while (get_byte() != 0)` -/
def skipString (fuel : Nat) : Program State Unit :=
  Program.loop (fun _ => do
    if (← getByte) ≠ 0 then return .next () else return .leave ()) fuel ()

/-- Two bytes, the low one first. -/
def getWord : Program State Nat := do
  let low ← getByte
  let high ← getByte
  return low.toNat ||| high.toNat <<< 8

/-- Four bytes, the lowest one first. -/
def getLong : Program State Nat := do
  let first ← getByte
  let second ← getByte
  let third ← getByte
  let fourth ← getByte
  return first.toNat ||| second.toNat <<< 8 ||| third.toNat <<< 16 ||| fourth.toNat <<< 24

/-- The header, up to the flags. -/
def gunzipFlags : Program State Nat := do
  let magic0 ← getByte
  let magic1 ← getByte
  let method ← getByte
  if magic0 ≠ 0o37 ∨ (magic1 ≠ 0o213 ∧ magic1 ≠ 0o236) then error
  else if method ≠ 8 then error
  else
    let flags := (← getByte).toNat
    if flags &&& encryptedFlag ≠ 0 then error
    else if flags &&& continuationFlag ≠ 0 then error
    else if flags &&& reservedFlag ≠ 0 then error
    else return flags

/-- The extra field, which starts with its length. -/
def skipExtra (flags : Nat) : Program State Unit :=
  if flags &&& extraFieldFlag ≠ 0 then do
    let len ← getWord
    skipBytes len
  else return ()

/-- A string that is there if its flag is set. -/
def skipName (fuel flags flag : Nat) : Program State Unit :=
  if flags &&& flag ≠ 0 then skipString fuel else return ()

/-- The rest of the header. -/
def gunzipFields (fuel flags : Nat) : Program State Unit := do
  -- timestamp, extra flags and OS type
  skipBytes 6
  skipExtra flags
  skipName fuel flags origNameFlag
  skipName fuel flags commentFlag

/-- `gunzip` -/
def gunzip (fuel : Nat) : Program State Unit := do
  gzipReset
  let flags ← gunzipFlags
  gunzipFields fuel flags
  if (← inflate fuel) ≠ 0 then error
  else
    let origCrc ← getLong
    let origLen ← getLong
    if origCrc ≠ (← crcValue).toNat then error
    else if origLen ≠ (← Program.look State.bytesOut) then error
    else return ()

/-- `decompress_kernel`, behind the assignments to `input_data`, `input_len` and
`output_data`. -/
def decompressKernel (fuel : Nat) : Program State Unit := do
  Program.alter fun s => { s with freeMemPtr := 0x01000000, freeMemEndPtr := 0x02000000 }
  makecrc
  gunzip fuel

/-- Before `decompress_kernel` is called with some input; the window holds what it held. -/
def handedOver (inputData : Nat → Byte) (inputLen : Nat) (window : Memory) : State where
  inputData := inputData
  inputLen := inputLen
  insize := 0
  inptr := 0
  bb := 0
  bk := 0
  window := window
  outcnt := 0
  output := []
  bytesOut := 0
  crc32Tab := fun _ => 0
  crc := 0
  freeMemPtr := 0
  freeMemEndPtr := 0
  tables := fun _ _ => default
  builds := 0
  stack := fun _ => { v := fun _ => 0, r := default }

end Cromwell.Gzip
