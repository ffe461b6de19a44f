import Mathlib.Tactic
import Cromwell.Std.Loop
import Cromwell.Std.Memory

/-!
# The PLL settings of the Focus encoder

`focus_calc_pll_settings` looks for a multiplier, a divider and a factor that turn
the clock of the numerically controlled oscillator into the pixel clock. A `long`
has 32 bits and its arithmetic wraps around. The clock of the oscillator comes
from a floating-point product and is given here.
-/

namespace Cromwell.Video

open Cromwell.Std

/-! ## The search of the source -/

/-- What the caller asks for. -/
structure FocusPllSettings where
  dotclock : Int32
  vgaHtotal : Int32
  vgaVtotal : Int32
  tvHtotal : Int32
  tvVtotal : Int32
  deriving Repr, DecidableEq

namespace FocusPllSettings

def ncon (settings : FocusPllSettings) : Int32 := settings.vgaHtotal * settings.vgaVtotal

def ncod (settings : FocusPllSettings) (pllMultiplier : Nat) : Int32 :=
  settings.tvHtotal * settings.tvVtotal * Int32.ofNat pllMultiplier

end FocusPllSettings

/-- `value & 0xFF`, stored in a register. -/
def lowByte (value : Int32) : Byte := (value &&& 0xff).toUInt32.toUInt8

/-- The values of the registers from 0x10 to 0x1D. -/
def pllRegisters (ncon ncod : Int32) (pllMultiplier n m : Nat) : List Byte :=
  let m := Int32.ofNat m
  let n := Int32.ofNat n
  let pllMultiplier := Int32.ofNat pllMultiplier
  [lowByte ncon, lowByte (ncon >>> 8), lowByte (ncon >>> 16), lowByte (ncon >>> 24),
    lowByte ncod, lowByte (ncod >>> 8), lowByte (ncod >>> 16), lowByte (ncod >>> 24),
    lowByte (m - 17), lowByte ((m - 17) >>> 8), lowByte (n - 1), lowByte ((n - 1) >>> 8),
    lowByte (pllMultiplier - 1), lowByte (pllMultiplier - 1)]

section Search

variable (settings : FocusPllSettings) (ncoOutClk : Nat → Int32)

/-- One value of `m`, with the input clock of the PLL. -/
def multiplyPass (pllMultiplier n : Nat) (pllInClk : Int32) (m : Nat) (regs : Memory) :
    Pass Memory Memory :=
  let pllOutClk := pllInClk * Int32.ofNat m
  if 100000000 ≤ pllOutClk ∧ pllOutClk ≤ 300000000 then
    let outputClk := pllOutClk / Int32.ofNat pllMultiplier
    if outputClk = settings.dotclock ∨ outputClk + 1 = settings.dotclock ∨
        outputClk - 1 = settings.dotclock then
      .leave (regs.store 0x10
        (pllRegisters settings.ncon (settings.ncod pllMultiplier) pllMultiplier n m))
    else .next regs
  else .next regs

/-- One value of `n`. -/
def dividePass (pllMultiplier n : Nat) (regs : Memory) : Pass Memory Memory :=
  let pllInClk := ncoOutClk pllMultiplier / Int32.ofNat n
  if 100000 ≤ pllInClk ∧ pllInClk ≤ 1000000 then
    forLoop (multiplyPass settings pllMultiplier n pllInClk) 2998 2 regs
  else .next regs

/-- One value of `pll_multiplier`. -/
def multiplierPass (pllMultiplier : Nat) (regs : Memory) : Pass Memory Memory :=
  forLoop (dividePass settings ncoOutClk pllMultiplier) 268 2 regs

/-- `focus_calc_pll_settings`: the value returned, and the registers it leaves. -/
def focusCalcPllSettings (regs : Memory) : Int32 × Memory :=
  match forLoop (multiplierPass settings ncoOutClk) 2 4 regs with
  | .leave regs => (1, regs)
  | .next regs => (0, regs)

end Search

/-! ## What is searched for -/

/-- The triples of the search. -/
structure PllCandidate (pllMultiplier n m : Nat) : Prop where
  multiplier : pllMultiplier = 4 ∨ pllMultiplier = 5
  divider : 2 ≤ n ∧ n ≤ 269
  factor : 2 ≤ m ∧ m ≤ 2999

/-- A triple that turns the clock of the oscillator into the pixel clock, over the integers. -/
structure PllSolution (ncoOutClk dotclock : Int) (pllMultiplier n m : Nat) : Prop where
  input : 100000 ≤ ncoOutClk / n ∧ ncoOutClk / n ≤ 1000000
  output : 100000000 ≤ ncoOutClk / n * m ∧ ncoOutClk / n * m ≤ 300000000
  pixel : |ncoOutClk / n * m / pllMultiplier - dotclock| ≤ 1

/-- A triple of the search that solves it. -/
structure FocusPllSettings.Solves (settings : FocusPllSettings) (ncoOutClk : Nat → Int32)
    (pllMultiplier n m : Nat) : Prop where
  candidate : PllCandidate pllMultiplier n m
  solution : PllSolution (ncoOutClk pllMultiplier).toInt settings.dotclock.toInt pllMultiplier n m

/-- The first triple comes before the second one in the order of the search. -/
def SearchedBefore (pllMultiplier n m pllMultiplier' n' m' : Nat) : Prop :=
  pllMultiplier < pllMultiplier' ∨
    pllMultiplier = pllMultiplier' ∧ (n < n' ∨ n = n' ∧ m < m')

/-- What the registers say of a triple. -/
structure PllProgrammed (ncon ncod : Int32) (pllMultiplier n m : Nat) (before regs : Memory) :
    Prop where
  ncon : regs.dword 0x10 = ncon.toUInt32.toNat
  ncod : regs.dword 0x14 = ncod.toUInt32.toNat
  factor : ((regs 0x18).toNat + (regs 0x19).toNat * 0x100 : Int) = (m : Int) - 17
  divider : (regs 0x1A).toNat + (regs 0x1B).toNat * 0x100 = n - 1
  multiplier : (regs 0x1C).toNat = pllMultiplier - 1 ∧ (regs 0x1D).toNat = pllMultiplier - 1
  others : ∀ register, register < 0x10 ∨ 0x1D < register → regs register = before register

/-! ## The registers -/

theorem toBitVec_lowByte (value : Int32) :
    (lowByte value).toBitVec = value.toBitVec.setWidth 8 := by
  have masked : (lowByte value).toBitVec = (value.toBitVec &&& 255#32).setWidth 8 := rfl
  have ones : (255#32).setWidth 8 = BitVec.allOnes 8 := rfl
  rw [masked, BitVec.setWidth_and, ones, BitVec.and_allOnes]

/-- The signs that an arithmetic shift brings in stay above the low byte. -/
theorem setWidth_sshiftRight (value : BitVec 32) {shift : Nat} (inside : shift ≤ 24) :
    (value.sshiftRight shift).setWidth 8 = BitVec.ofNat 8 (value.toNat / 2 ^ shift) := by
  apply BitVec.eq_of_getLsbD_eq
  intro i small
  have within : shift + i < 32 := by omega
  have low : ¬32 ≤ i := by omega
  rw [BitVec.getLsbD_setWidth, BitVec.getLsbD_sshiftRight, if_pos within, BitVec.getLsbD_ofNat,
    Nat.testBit_div_two_pow, BitVec.testBit_toNat, Nat.add_comm i]
  simp [small, low]

theorem lowByte_of_shift {value shifted : Int32} (shift : Nat) (inside : shift ≤ 24)
    (moved : shifted.toBitVec = value.toBitVec.sshiftRight shift) :
    lowByte shifted = UInt8.ofNat (value.toUInt32.toNat / 2 ^ shift) := by
  rw [← UInt8.toBitVec_inj, toBitVec_lowByte, moved, setWidth_sshiftRight _ inside]
  rfl

theorem lowBytes_eq (value : Int32) :
    [lowByte value, lowByte (value >>> 8), lowByte (value >>> 16), lowByte (value >>> 24)] =
      dwordBytes value.toUInt32.toNat := by
  have zero : lowByte value = UInt8.ofNat (value.toUInt32.toNat / 2 ^ 0) :=
    lowByte_of_shift 0 (by omega) BitVec.sshiftRight_zero.symm
  rw [zero, lowByte_of_shift 8 (by omega) rfl, lowByte_of_shift 16 (by omega) rfl,
    lowByte_of_shift 24 (by omega) rfl, Nat.pow_zero, Nat.div_one]
  rfl

/-- Two registers hold a small number. -/
theorem lowBytes_small {value : Int32} {n : Nat} (small : n < 0x10000)
    (equal : value = Int32.ofNat n) :
    (lowByte value).toNat + (lowByte (value >>> 8)).toNat * 0x100 = n := by
  have low : lowByte value = UInt8.ofNat (value.toUInt32.toNat / 2 ^ 0) :=
    lowByte_of_shift 0 (by omega) BitVec.sshiftRight_zero.symm
  have high : lowByte (value >>> 8) = UInt8.ofNat (value.toUInt32.toNat / 2 ^ 8) :=
    lowByte_of_shift 8 (by omega) rfl
  have held : value.toUInt32.toNat = n := by
    rw [equal]
    exact Nat.mod_eq_of_lt (by omega)
  rw [low, high, held, UInt8.toNat_ofNat', UInt8.toNat_ofNat']
  omega

/-- The registers are two words and six bytes. -/
theorem pllRegisters_eq (ncon ncod : Int32) (pllMultiplier n m : Nat) :
    pllRegisters ncon ncod pllMultiplier n m =
      dwordBytes ncon.toUInt32.toNat ++ (dwordBytes ncod.toUInt32.toNat ++
        [lowByte (Int32.ofNat m - 17), lowByte ((Int32.ofNat m - 17) >>> 8),
          lowByte (Int32.ofNat n - 1), lowByte ((Int32.ofNat n - 1) >>> 8),
          lowByte (Int32.ofNat pllMultiplier - 1), lowByte (Int32.ofNat pllMultiplier - 1)]) := by
  rw [← lowBytes_eq, ← lowBytes_eq]
  rfl

theorem pllRegisters_programmed {ncon ncod : Int32} {pllMultiplier n m : Nat}
    (candidate : PllCandidate pllMultiplier n m) (large : 17 ≤ m) (regs : Memory) :
    PllProgrammed ncon ncod pllMultiplier n m regs
      (regs.store 0x10 (pllRegisters ncon ncod pllMultiplier n m)) := by
  obtain ⟨multiplier, divider, factor⟩ := candidate
  have counted : Int32.ofNat m - 17 = Int32.ofNat (m - 17) := (Int32.ofNat_sub m 17 large).symm
  have divided : Int32.ofNat n - 1 = Int32.ofNat (n - 1) :=
    (Int32.ofNat_sub n 1 (by omega)).symm
  have length : (pllRegisters ncon ncod pllMultiplier n m).length = 14 := rfl
  have at' : ∀ (k : Nat) (inside : k < 14),
      regs.store 0x10 (pllRegisters ncon ncod pllMultiplier n m) (0x10 + k) =
        (pllRegisters ncon ncod pllMultiplier n m)[k] := by
    intro k inside
    rw [Memory.store_inside _ (by omega) (by omega)]
    simp only [Nat.add_sub_cancel_left]
    rfl
  refine ⟨?_, ?_, ?_, ?_, ?_, ?_⟩
  · rw [pllRegisters_eq, Memory.store_append,
      Memory.dword_store_other _ (.inl (by rw [length_dwordBytes])),
      Memory.dword_store _ _ (UInt32.toNat_lt _)]
  · rw [pllRegisters_eq, Memory.store_append, length_dwordBytes, Memory.store_append,
      Memory.dword_store_other _ (.inl (by rw [length_dwordBytes])),
      Memory.dword_store _ _ (UInt32.toNat_lt _)]
  · have held : (lowByte (Int32.ofNat m - 17)).toNat +
        (lowByte ((Int32.ofNat m - 17) >>> 8)).toNat * 0x100 = m - 17 :=
      lowBytes_small (by omega) counted
    rw [at' 8 (by omega), at' 9 (by omega)]
    show ((lowByte (Int32.ofNat m - 17)).toNat +
      (lowByte ((Int32.ofNat m - 17) >>> 8)).toNat * 0x100 : Int) = _
    omega
  · rw [at' 10 (by omega), at' 11 (by omega)]
    exact lowBytes_small (by omega) divided
  · rw [at' 12 (by omega), at' 13 (by omega)]
    rcases multiplier with rfl | rfl
    · exact ⟨rfl, rfl⟩
    · exact ⟨rfl, rfl⟩
  · intro register outside
    exact Memory.store_outside _ (by omega)

/-! ## The arithmetic of the search -/

/-- Products of the search stay below 2^32: one that wraps around is negative. -/
theorem toInt_product {pllInClk : Int32} {m : Nat} (positive : 0 ≤ pllInClk.toInt)
    (bounded : pllInClk.toInt ≤ 1000000) (factor : m ≤ 2999) :
    (pllInClk * Int32.ofNat m).toInt = pllInClk.toInt * m ∨
      (pllInClk * Int32.ofNat m).toInt < 0 ∧ 2 ^ 31 ≤ pllInClk.toInt * m := by
  have small : (Int32.ofNat m).toInt = m := Int32.toInt_ofNat_of_lt (by omega)
  have lower : 0 ≤ pllInClk.toInt * m := by positivity
  have upper : pllInClk.toInt * m ≤ 1000000 * 2999 := by
    apply mul_le_mul bounded (by exact_mod_cast factor) (by positivity) (by norm_num)
  rw [Int32.toInt_mul, small, Int.bmod_def]
  split <;> omega

theorem output_range {pllInClk : Int32} {m : Nat} (positive : 0 ≤ pllInClk.toInt)
    (bounded : pllInClk.toInt ≤ 1000000) (factor : m ≤ 2999) :
    (100000000 ≤ pllInClk * Int32.ofNat m ∧ pllInClk * Int32.ofNat m ≤ 300000000) ↔
      100000000 ≤ pllInClk.toInt * m ∧ pllInClk.toInt * m ≤ 300000000 := by
  have lower : (100000000 : Int32).toInt = 100000000 := rfl
  have upper : (300000000 : Int32).toInt = 300000000 := rfl
  rw [Int32.le_iff_toInt_le, Int32.le_iff_toInt_le, lower, upper]
  rcases toInt_product positive bounded factor with exact | ⟨wrapped, high⟩
  · rw [exact]
  · omega

theorem toInt_quotient (value : Int32) {n : Nat} (positive : 2 ≤ n) (bounded : n ≤ 269) :
    (value / Int32.ofNat n).toInt = value.toInt.tdiv n := by
  have small : (Int32.ofNat n).toInt = n := Int32.toInt_ofNat_of_lt (by omega)
  have other : Int32.ofNat n ≠ -1 := by
    rw [ne_eq, ← Int32.toInt_inj, small]
    show (n : Int) ≠ -1
    omega
  rw [Int32.toInt_div_of_ne_right _ _ other, small]

/-- Division of the source rounds towards zero: a quotient is the integer one unless the
dividend is negative, and then neither is positive. -/
theorem toInt_quotient_cases (value : Int32) {n : Nat} (positive : 2 ≤ n) (bounded : n ≤ 269) :
    (value / Int32.ofNat n).toInt = value.toInt / n ∨
      (value / Int32.ofNat n).toInt ≤ 0 ∧ value.toInt / n ≤ 0 := by
  rw [toInt_quotient value positive bounded]
  rcases Int.le_total 0 value.toInt with nonneg | negative
  · exact .inl (Int.tdiv_eq_ediv_of_nonneg nonneg)
  · right
    constructor
    · have turned : 0 ≤ (-value.toInt).tdiv n := Int.tdiv_nonneg (by omega) (by omega)
      rw [Int.neg_tdiv] at turned
      omega
    · exact Int.ediv_nonpos_of_nonpos_of_neg negative (by omega)

theorem input_range (value : Int32) {n : Nat} (positive : 2 ≤ n) (bounded : n ≤ 269) :
    (100000 ≤ value / Int32.ofNat n ∧ value / Int32.ofNat n ≤ 1000000) ↔
      100000 ≤ value.toInt / n ∧ value.toInt / n ≤ 1000000 := by
  have lower : (100000 : Int32).toInt = 100000 := rfl
  have upper : (1000000 : Int32).toInt = 1000000 := rfl
  rw [Int32.le_iff_toInt_le, Int32.le_iff_toInt_le, lower, upper]
  rcases toInt_quotient_cases value positive bounded with exact | ⟨low, low'⟩
  · rw [exact]
  · omega

/-- The three comparisons of the source with a clock far from the ends of the range. -/
theorem matches_dotclock (dotclock : Int32) {clock : Int32} {p : Int} (value : clock.toInt = p)
    (lower : 0 ≤ p) (upper : p ≤ 300000000) :
    (clock = dotclock ∨ clock + 1 = dotclock ∨ clock - 1 = dotclock) ↔
      |p - dotclock.toInt| ≤ 1 := by
  have one : (1 : Int32).toInt = 1 := rfl
  have above : (clock + 1).toInt = p + 1 := by
    rw [Int32.toInt_add, value, one, Int.bmod_def]
    split <;> omega
  have below' : (clock - 1).toInt = p - 1 := by
    rw [Int32.toInt_sub, value, one, Int.bmod_def]
    split <;> omega
  rw [← Int32.toInt_inj, ← Int32.toInt_inj, ← Int32.toInt_inj, above, below', value, abs_le]
  omega

/-- The output clock of an accepted product. -/
theorem toInt_output {pllInClk : Int32} {pllMultiplier m : Nat} (positive : 0 ≤ pllInClk.toInt)
    (bounded : pllInClk.toInt ≤ 1000000) (factor : m ≤ 2999)
    (multiplier : pllMultiplier = 4 ∨ pllMultiplier = 5)
    (output : 100000000 ≤ pllInClk.toInt * m ∧ pllInClk.toInt * m ≤ 300000000) :
    (pllInClk * Int32.ofNat m / Int32.ofNat pllMultiplier).toInt =
      pllInClk.toInt * m / pllMultiplier := by
  have product : (pllInClk * Int32.ofNat m).toInt = pllInClk.toInt * m := by
    rcases toInt_product positive bounded factor with exact | ⟨_, high⟩
    · exact exact
    · omega
  have nonneg : 0 ≤ (pllInClk * Int32.ofNat m).toInt := by omega
  rw [toInt_quotient _ (by omega) (by omega), Int.tdiv_eq_ediv_of_nonneg nonneg, product]

/-! ## The search -/

section Searching

variable {settings : FocusPllSettings} {ncoOutClk : Nat → Int32} {pllMultiplier n m : Nat}

/-- The registers are those of the triple. -/
def Programs (settings : FocusPllSettings) (regs : Memory) (pllMultiplier n m : Nat)
    (left : Memory) : Prop :=
  left = regs.store 0x10
    (pllRegisters settings.ncon (settings.ncod pllMultiplier) pllMultiplier n m)

/-- The first factor of a divider. -/
def FirstFactor (settings : FocusPllSettings) (ncoOutClk : Nat → Int32) (regs : Memory)
    (pllMultiplier n : Nat) (left : Memory) : Prop :=
  ∃ m, settings.Solves ncoOutClk pllMultiplier n m ∧
    (∀ earlier < m, ¬settings.Solves ncoOutClk pllMultiplier n earlier) ∧
    Programs settings regs pllMultiplier n m left

/-- The first divider of a multiplier, with its first factor. -/
def FirstDivider (settings : FocusPllSettings) (ncoOutClk : Nat → Int32) (regs : Memory)
    (pllMultiplier : Nat) (left : Memory) : Prop :=
  ∃ n, (∀ earlier < n, ∀ m, ¬settings.Solves ncoOutClk pllMultiplier earlier m) ∧
    FirstFactor settings ncoOutClk regs pllMultiplier n left

theorem multiplyPass_ends (settings : FocusPllSettings) (candidate : PllCandidate pllMultiplier n m)
    (input : 100000 ≤ (ncoOutClk pllMultiplier).toInt / n ∧
      (ncoOutClk pllMultiplier).toInt / n ≤ 1000000) (regs : Memory) :
    (multiplyPass settings pllMultiplier n (ncoOutClk pllMultiplier / Int32.ofNat n) m regs).Ends
      (fun next => next = regs ∧ ¬settings.Solves ncoOutClk pllMultiplier n m)
      fun left => settings.Solves ncoOutClk pllMultiplier n m ∧
        Programs settings regs pllMultiplier n m left := by
  obtain ⟨multiplier, divider, factor⟩ := candidate
  have quotient : (ncoOutClk pllMultiplier / Int32.ofNat n).toInt =
      (ncoOutClk pllMultiplier).toInt / n := by
    rcases toInt_quotient_cases (ncoOutClk pllMultiplier) divider.1 divider.2 with exact | low
    · exact exact
    · omega
  generalize ncoOutClk pllMultiplier / Int32.ofNat n = pllInClk at quotient ⊢
  have positive : 0 ≤ pllInClk.toInt := by omega
  have bounded : pllInClk.toInt ≤ 1000000 := by omega
  have range := output_range positive bounded factor.2
  unfold multiplyPass
  dsimp only
  by_cases accepted : 100000000 ≤ pllInClk * Int32.ofNat m ∧ pllInClk * Int32.ofNat m ≤ 300000000
  · have output := range.mp accepted
    have clock := toInt_output positive bounded factor.2 multiplier output
    have pixel := matches_dotclock settings.dotclock clock
      (by rcases multiplier with rfl | rfl <;> omega)
      (by rcases multiplier with rfl | rfl <;> omega)
    rw [quotient] at output pixel
    rw [if_pos accepted]
    split
    · next matched =>
      exact ⟨⟨⟨multiplier, divider, factor⟩, input, output, pixel.mp matched⟩, rfl⟩
    · next unmatched => exact ⟨rfl, fun solves => unmatched (pixel.mpr solves.solution.pixel)⟩
  · rw [quotient] at range
    rw [if_neg accepted]
    exact ⟨rfl, fun solves => accepted (range.mpr solves.solution.output)⟩

theorem dividePass_ends (settings : FocusPllSettings) (ncoOutClk : Nat → Int32)
    (multiplier : pllMultiplier = 4 ∨ pllMultiplier = 5)
    (divider : 2 ≤ n ∧ n ≤ 269) (regs : Memory) :
    (dividePass settings ncoOutClk pllMultiplier n regs).Ends
      (fun next => next = regs ∧ ¬∃ m, settings.Solves ncoOutClk pllMultiplier n m)
      fun left => (∃ m, settings.Solves ncoOutClk pllMultiplier n m) ∧
        FirstFactor settings ncoOutClk regs pllMultiplier n left := by
  have range := input_range (ncoOutClk pllMultiplier) divider.1 divider.2
  unfold dividePass
  dsimp only
  split
  · next accepted =>
    have searched := forLoop_first 2998 2 fun m lower upper =>
      multiplyPass_ends settings ⟨multiplier, divider, lower, by omega⟩ (range.mp accepted) regs
    apply searched.mono
    · rintro next ⟨same, none⟩
      refine ⟨same, fun ⟨m, solves⟩ => ?_⟩
      have inside := solves.candidate.factor
      exact none m inside.1 (by omega) solves
    · rintro left ⟨m, _, _, solves, none, programs⟩
      refine ⟨⟨m, solves⟩, m, solves, fun earlier before solvesEarlier => ?_, programs⟩
      exact none earlier solvesEarlier.candidate.factor.1 before solvesEarlier
  · next refused =>
    exact ⟨rfl, fun ⟨m, solves⟩ => refused (range.mpr solves.solution.input)⟩

theorem multiplierPass_ends (settings : FocusPllSettings) (ncoOutClk : Nat → Int32)
    (multiplier : pllMultiplier = 4 ∨ pllMultiplier = 5) (regs : Memory) :
    (multiplierPass settings ncoOutClk pllMultiplier regs).Ends
      (fun next => next = regs ∧ ¬∃ n m, settings.Solves ncoOutClk pllMultiplier n m)
      fun left => (∃ n m, settings.Solves ncoOutClk pllMultiplier n m) ∧
        FirstDivider settings ncoOutClk regs pllMultiplier left := by
  have searched := forLoop_first 268 2 fun n lower upper =>
    dividePass_ends settings ncoOutClk multiplier ⟨lower, show n ≤ 269 by omega⟩ regs
  apply searched.mono
  · rintro next ⟨same, none⟩
    refine ⟨same, fun ⟨n, m, solves⟩ => ?_⟩
    have inside := solves.candidate.divider
    exact none n inside.1 (by omega) ⟨m, solves⟩
  · rintro left ⟨n, _, _, ⟨m, solves⟩, none, first⟩
    refine ⟨⟨n, m, solves⟩, n, fun earlier before m' solvesEarlier => ?_, first⟩
    exact none earlier solvesEarlier.candidate.divider.1 before ⟨m', solvesEarlier⟩

theorem search_ends (settings : FocusPllSettings) (ncoOutClk : Nat → Int32) (regs : Memory) :
    (forLoop (multiplierPass settings ncoOutClk) 2 4 regs).Ends
      (fun next => next = regs ∧
        ∀ pllMultiplier n m, ¬settings.Solves ncoOutClk pllMultiplier n m)
      fun left => ∃ pllMultiplier,
        (∀ earlier < pllMultiplier, ∀ n m, ¬settings.Solves ncoOutClk earlier n m) ∧
        FirstDivider settings ncoOutClk regs pllMultiplier left := by
  have searched := forLoop_first 2 4 fun pllMultiplier lower upper =>
    multiplierPass_ends settings ncoOutClk
      (show pllMultiplier = 4 ∨ pllMultiplier = 5 by omega) regs
  apply searched.mono
  · rintro next ⟨same, none⟩
    refine ⟨same, fun pllMultiplier n m solves => ?_⟩
    have inside := solves.candidate.multiplier
    exact none pllMultiplier (by omega) (by omega) ⟨n, m, solves⟩
  · rintro left ⟨pllMultiplier, _, _, _, none, first⟩
    refine ⟨pllMultiplier, fun earlier before n m solvesEarlier => ?_, first⟩
    have inside := solvesEarlier.candidate.multiplier
    exact none earlier (by omega) before ⟨n, m, solvesEarlier⟩

end Searching

/-- The first triple that solves the search. -/
structure FocusPllSettings.FirstSolution (settings : FocusPllSettings) (ncoOutClk : Nat → Int32)
    (pllMultiplier n m : Nat) : Prop where
  solves : settings.Solves ncoOutClk pllMultiplier n m
  first : ∀ pllMultiplier' n' m', SearchedBefore pllMultiplier' n' m' pllMultiplier n m →
    ¬settings.Solves ncoOutClk pllMultiplier' n' m'

/-- The factor of a solution is never below 17. -/
theorem FocusPllSettings.Solves.factor_large {settings : FocusPllSettings}
    {ncoOutClk : Nat → Int32} {pllMultiplier n m : Nat}
    (solves : settings.Solves ncoOutClk pllMultiplier n m) : 17 ≤ m := by
  obtain ⟨_, input, output, _⟩ := solves
  by_contra small
  have product : (ncoOutClk pllMultiplier).toInt / n * m ≤ 1000000 * 16 := by
    apply mul_le_mul input.2 (by omega) (by omega) (by omega)
  omega

/-- The search fails where there is no solution, and else programs the first one. -/
theorem focusCalcPllSettings_cases (settings : FocusPllSettings) (ncoOutClk : Nat → Int32)
    (regs : Memory) :
    (focusCalcPllSettings settings ncoOutClk regs = (0, regs) ∧
      ∀ pllMultiplier n m, ¬settings.Solves ncoOutClk pllMultiplier n m) ∨
    ((focusCalcPllSettings settings ncoOutClk regs).1 = 1 ∧
      ∃ pllMultiplier n m, settings.FirstSolution ncoOutClk pllMultiplier n m ∧
        PllProgrammed settings.ncon (settings.ncod pllMultiplier) pllMultiplier n m regs
          (focusCalcPllSettings settings ncoOutClk regs).2) := by
  have searched := search_ends settings ncoOutClk regs
  unfold focusCalcPllSettings
  generalize forLoop (multiplierPass settings ncoOutClk) 2 4 regs = ended at searched ⊢
  cases ended with
  | next left =>
      obtain ⟨rfl, none⟩ := searched
      exact .inl ⟨rfl, none⟩
  | leave left =>
      obtain ⟨pllMultiplier, noMultiplier, n, noDivider, m, solves, noFactor, programs⟩ := searched
      have first : settings.FirstSolution ncoOutClk pllMultiplier n m := by
        refine ⟨solves, fun pllMultiplier' n' m' before => ?_⟩
        rcases before with earlier | ⟨rfl, earlier | ⟨rfl, earlier⟩⟩
        · exact noMultiplier pllMultiplier' earlier n' m'
        · exact noDivider n' earlier m'
        · exact noFactor m' earlier
      refine .inr ⟨rfl, pllMultiplier, n, m, first, ?_⟩
      rw [show left = _ from programs]
      exact pllRegisters_programmed solves.candidate solves.factor_large regs

/-- The search over wrapped products is exact over the integers, and the registers are those of
its first solution. -/
theorem focusCalcPllSettings_exact (settings : FocusPllSettings) (ncoOutClk : Nat → Int32)
    (regs : Memory) :
    ((focusCalcPllSettings settings ncoOutClk regs).1 = 1 ↔
      ∃ pllMultiplier n m, settings.Solves ncoOutClk pllMultiplier n m) ∧
    ((focusCalcPllSettings settings ncoOutClk regs).1 = 1 →
      ∃ pllMultiplier n m, settings.FirstSolution ncoOutClk pllMultiplier n m ∧
        PllProgrammed settings.ncon (settings.ncod pllMultiplier) pllMultiplier n m regs
          (focusCalcPllSettings settings ncoOutClk regs).2) ∧
    ((focusCalcPllSettings settings ncoOutClk regs).1 ≠ 1 →
      focusCalcPllSettings settings ncoOutClk regs = (0, regs)) := by
  rcases focusCalcPllSettings_cases settings ncoOutClk regs with
    ⟨failed, none⟩ | ⟨found, pllMultiplier, n, m, first, programmed⟩
  · have zero : ¬(0 : Int32) = 1 := by decide
    simp [failed, none, zero]
  · exact ⟨⟨fun _ => ⟨pllMultiplier, n, m, first.solves⟩, fun _ => found⟩,
      fun _ => ⟨pllMultiplier, n, m, first, programmed⟩, fun failed => absurd found failed⟩

end Cromwell.Video
