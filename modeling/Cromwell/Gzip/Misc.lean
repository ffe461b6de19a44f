import Cromwell.Std.Program
import Cromwell.Std.Crc

/-!
# The surroundings of the decompressor

`misc.c` gives `inflate.c` its input, its window, its memory and its output. An
error is an endless loop, so a run that comes to one does not return. What lies
behind `output_data` is written from front to back and is kept as a list.
-/

namespace Cromwell.Gzip

open Cromwell.Std

def wsize : Nat := 0x8000

/-- `struct huft`. The union `v` is one word: all of it is the pointer `v.t`, its low
half the number `v.n`. -/
structure Huft where
  e : Nat
  b : Nat
  v : Nat
  deriving Repr, DecidableEq, Inhabited

/-- `v.n` -/
def Huft.n (entry : Huft) : Nat := entry.v % 2 ^ 16

/-- `v.n = (ush) value` -/
def Huft.setN (entry : Huft) (value : Nat) : Huft :=
  { entry with v := entry.v / 2 ^ 16 * 2 ^ 16 + value % 2 ^ 16 }

/-- What a call of `huft_build` finds in the variables it does not initialise. -/
structure Uninitialised where
  v : Nat → Nat
  r : Huft

/-- The variables of `misc.c` and `inflate.c`, and the memory behind them. -/
structure State where
  /-- The bytes behind `input_data`. -/
  inputData : Nat → Byte
  inputLen : Nat
  insize : Nat
  inptr : Nat
  bb : Nat
  bk : Nat
  window : Memory
  outcnt : Nat
  /-- What has been written behind `output_data`; `output_ptr` is its length. -/
  output : List Byte
  bytesOut : Nat
  crc32Tab : Nat → BitVec 32
  crc : BitVec 32
  freeMemPtr : Nat
  freeMemEndPtr : Nat
  /-- The entries of the table at an address. -/
  tables : Nat → Nat → Huft
  /-- The calls of `huft_build` so far. -/
  builds : Nat
  /-- What each call of `huft_build` finds on the stack. -/
  stack : Nat → Uninitialised

/-- `error`: `while(1);` -/
def error {α : Type} : Program State α := Program.stuck

/-! ## Input -/

/-- `fill_inbuf` -/
def fillInbuf : Program State Byte := do
  if (← Program.look State.insize) ≠ 0 then error
  else
    Program.update fun s => (s.inputData 0, { s with insize := s.inputLen, inptr := 1 })

/-- `get_byte` -/
def getByte : Program State Byte := do
  if ← Program.look fun s => decide (s.inptr < s.insize) then
    Program.update fun s => (s.inputData s.inptr, { s with inptr := s.inptr + 1 })
  else fillInbuf

/-! ## Memory -/

/-- `gzip_malloc` -/
def gzipMalloc (size : Nat) : Program State Nat := do
  if (← Program.look State.freeMemPtr) = 0 then error
  else
    let p ← Program.look fun s => (s.freeMemPtr + 3) / 4 * 4
    Program.alter fun s => { s with freeMemPtr := p + size }
    if ← Program.look fun s => decide (s.freeMemEndPtr ≤ s.freeMemPtr) then error
    else return p

/-- `gzip_mark` -/
def gzipMark : Program State Nat := Program.look State.freeMemPtr

/-- `gzip_release` -/
def gzipRelease (ptr : Nat) : Program State Unit :=
  Program.alter fun s => { s with freeMemPtr := ptr }

/-- `gzip_reset` -/
def gzipReset : Program State Unit := Program.alter fun s =>
  { s with insize := 0, inptr := 0, outcnt := 0, bytesOut := 0, output := [] }

/-! ## Output -/

/-- `crc_32_tab[((int)c ^ ch) & 0xff] ^ (c >> 8)` -/
def updateCrc (crc32Tab : Nat → BitVec 32) (c : BitVec 32) (ch : Byte) : BitVec 32 :=
  crc32Tab ((c ^^^ BitVec.ofNat 32 ch.toNat) &&& 0xff#32).toNat ^^^ (c >>> 8)

/-- `flush_window` -/
def flushWindow : Program State Unit := Program.alter fun s =>
  { s with
    output := s.output ++ s.window.bytes 0 s.outcnt
    crc := (s.window.bytes 0 s.outcnt).foldl (updateCrc s.crc32Tab) s.crc
    bytesOut := (s.bytesOut + s.outcnt) % 2 ^ 32
    outcnt := 0 }

/-! ## The table of `makecrc` -/

/-- The exponents of the polynomial, without the highest. -/
def crcTerms : List Nat := [0, 1, 2, 4, 5, 7, 8, 10, 11, 12, 16, 22, 23, 26]

/-- `e |= 1L << (31 - p[i])` for every term. -/
def crcPattern : BitVec 32 := crcTerms.foldl (fun e p => e ||| 1#32 <<< (31 - p)) 0

/-- The loop over `k`, which stops at 1. -/
def makecrcEntry (e : BitVec 32) : (passes : Nat) → (k : Nat) → BitVec 32 → BitVec 32
  | 0, _, c => c
  | passes + 1, k, c =>
    if k = 1 then c
    else
      let c := if c &&& 1 ≠ 0 then (c >>> 1) ^^^ e else c >>> 1
      makecrcEntry e passes (k / 2) (if k % 2 = 1 then c ^^^ e else c)

/-- `makecrc` -/
def makecrc : Program State Unit := Program.alter fun s =>
  { s with
    crc32Tab := fun i => if i = 0 then 0 else makecrcEntry crcPattern 32 (i ||| 256) 0
    crc := 0xffffffff#32 }

/-- `CRC_VALUE` -/
def crcValue : Program State (BitVec 32) := Program.look fun s => s.crc ^^^ 0xffffffff#32

/-! ## The table holds what the polynomial makes of a byte -/

/-- The code of some bytes, bit by bit, as the register has it before the last inversion. -/
def crcOf (bytes : List Byte) : BitVec 32 :=
  crcBits crcPattern 0xffffffff#32 (bytes.flatMap byteBits)

example : crcPattern = 0xedb88320#32 := by decide

/-- The register moves on by its lowest bit. -/
theorem step_of_lowest (e c : BitVec 32) :
    (if c &&& 1 ≠ 0 then (c >>> 1) ^^^ e else c >>> 1) = crcStep e c := by
  have lowest : c &&& 1 ≠ 0 ↔ c.getLsbD 0 = true := by
    constructor
    · intro set
      by_contra clear
      apply set
      apply BitVec.eq_of_getLsbD_eq
      intro i inside
      cases i with
      | zero => simpa using clear
      | succ i => simp
    · intro set zero
      have bit : (c &&& 1#32).getLsbD 0 = (0#32).getLsbD 0 :=
        congrArg (fun word : BitVec 32 => word.getLsbD 0) zero
      rw [BitVec.getLsbD_and, set] at bit
      simp at bit
  simp only [crcStep, lowest]

/-- A pass of `makecrc` takes in a bit of `i`. -/
theorem makecrcEntry_bits (passes : Nat) (bits : List Bool) (c : BitVec 32)
    (enough : bits.length < passes) :
    makecrcEntry crcPattern passes (2 ^ bits.length + bitsValue bits) c =
      crcBits crcPattern c bits := by
  induction bits generalizing passes c with
  | nil =>
      obtain ⟨passes, rfl⟩ := Nat.exists_eq_succ_of_ne_zero (Nat.ne_of_gt enough)
      simp [makecrcEntry, bitsValue, crcBits]
  | cons bit rest ih =>
      obtain ⟨passes, rfl⟩ := Nat.exists_eq_succ_of_ne_zero (Nat.ne_of_gt (by omega : 0 < passes))
      have small := Bool.toNat_le bit
      have positive := Nat.two_pow_pos rest.length
      have whole : 2 ^ (bit :: rest).length + bitsValue (bit :: rest) =
          bit.toNat + 2 * (2 ^ rest.length + bitsValue rest) := by
        rw [List.length_cons, bitsValue, pow_succ]
        ring
      have half : (bit.toNat + 2 * (2 ^ rest.length + bitsValue rest)) / 2 =
          2 ^ rest.length + bitsValue rest := by omega
      have low : (bit.toNat + 2 * (2 ^ rest.length + bitsValue rest)) % 2 = bit.toNat := by omega
      have one : crcStep crcPattern 1#32 = crcPattern := by decide
      have taken : (if bit.toNat = 1 then crcStep crcPattern c ^^^ crcPattern
          else crcStep crcPattern c) =
          crcStep crcPattern (c ^^^ BitVec.ofNat 32 bit.toNat) := by
        rw [crcStep_xor]
        cases bit with
        | false => simp
        | true => rw [Bool.toNat_true, if_pos rfl, one]
      rw [whole, makecrcEntry, if_neg (by omega)]
      dsimp only
      rw [half, low, step_of_lowest, taken, ih passes _ (by simpa using enough), crcBits]

/-- `crc_32_tab[i]` is eight steps of the register with `i` in it. -/
theorem makecrc_entry {i : Nat} (small : i < 256) :
    (if i = 0 then 0 else makecrcEntry crcPattern 32 (i ||| 256) 0) =
      crcSteps crcPattern 8 (BitVec.ofNat 32 i) := by
  have number : bitsValue (numberBits 8 i) = i := by
    rw [bitsValue_numberBits]
    exact Nat.mod_eq_of_lt small
  have flagged : i ||| 256 = 2 ^ (numberBits 8 i).length + bitsValue (numberBits 8 i) := by
    rw [length_numberBits, number, Nat.lor_comm]
    exact (Nat.two_pow_add_eq_or_of_lt (by omega : i < 2 ^ 8) 1).symm
  split
  · next zero => rw [zero, BitVec.ofNat_eq_ofNat, crcSteps_zero]
  · rw [flagged, makecrcEntry_bits 32 _ _ (by simp), crcBits_eq_steps _ _ (by simp),
      length_numberBits, crcWord, number, BitVec.ofNat_eq_ofNat, BitVec.zero_xor]

/-- The table in use is the one that `makecrc` makes. -/
def TableMade (crc32Tab : Nat → BitVec 32) : Prop :=
  ∀ i, i < 256 → crc32Tab i = crcSteps crcPattern 8 (BitVec.ofNat 32 i)

/-- With the table of `makecrc` a byte is taken in as bit by bit. -/
theorem TableMade.updateCrc {crc32Tab : Nat → BitVec 32} (made : TableMade crc32Tab)
    (c : BitVec 32) (ch : Byte) : updateCrc crc32Tab c ch = crcBits crcPattern c (byteBits ch) := by
  have small : ((c ^^^ BitVec.ofNat 32 ch.toNat) &&& 0xff#32).toNat < 256 := by
    rw [BitVec.toNat_and]
    exact lt_of_le_of_lt Nat.and_le_right (by decide)
  rw [Gzip.updateCrc, made _ small, BitVec.ofNat_toNat, BitVec.setWidth_eq,
    crcBits_byte crcPattern c ch (by decide)]

theorem TableMade.foldl {crc32Tab : Nat → BitVec 32} (made : TableMade crc32Tab)
    (c : BitVec 32) (bytes : List Byte) :
    bytes.foldl (Gzip.updateCrc crc32Tab) c = crcBits crcPattern c (bytes.flatMap byteBits) := by
  induction bytes generalizing c with
  | nil => rfl
  | cons byte rest ih =>
      rw [List.foldl_cons, ih, made.updateCrc, List.flatMap_cons, crcBits_append]

end Cromwell.Gzip
