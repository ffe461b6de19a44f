import Cromwell.Std.BitStream

/-!
# Cyclic redundancy codes

A reflected code is a register that takes the bits of a message one by one at its
lowest bit. A step of the register is linear, so the bits of a message that is not
longer than the register can go in together before the steps are made. Where the
polynomial has its lowest term, which is the highest bit of the register, a step
can be undone; then no burst of errors that fits the register goes unseen.
-/

namespace Cromwell.Std

variable {w : Nat}

/-- A step of the register. -/
def crcStep (poly c : BitVec w) : BitVec w :=
  if c.getLsbD 0 then (c >>> 1) ^^^ poly else c >>> 1

/-- Steps with no message. -/
def crcSteps (poly : BitVec w) : (count : Nat) → BitVec w → BitVec w
  | 0, c => c
  | count + 1, c => crcSteps poly count (crcStep poly c)

/-- The register after the bits of a message. -/
def crcBits (poly : BitVec w) : BitVec w → List Bool → BitVec w
  | c, [] => c
  | c, bit :: rest => crcBits poly (crcStep poly (c ^^^ BitVec.ofNat w bit.toNat)) rest

/-- A row of bits, the first one the lowest, in a register. -/
def crcWord (w : Nat) (bits : List Bool) : BitVec w := BitVec.ofNat w (bitsValue bits)

section Linear

variable (poly : BitVec w)

@[simp] theorem crcStep_zero : crcStep poly 0#w = 0#w := by
  simp [crcStep]

/-- A step is linear. -/
theorem crcStep_xor (a b : BitVec w) :
    crcStep poly (a ^^^ b) = crcStep poly a ^^^ crcStep poly b := by
  unfold crcStep
  rw [BitVec.getLsbD_xor, BitVec.ushiftRight_xor_distrib]
  cases a.getLsbD 0 with
  | false =>
      cases b.getLsbD 0 with
      | false => simp
      | true => simp [BitVec.xor_assoc]
  | true =>
      cases b.getLsbD 0 with
      | false =>
          simp only [Bool.xor_false, if_true, Bool.false_eq_true, if_false]
          rw [BitVec.xor_assoc, BitVec.xor_assoc, BitVec.xor_comm poly]
      | true =>
          simp only [Bool.xor_self, Bool.false_eq_true, if_false, if_true]
          rw [BitVec.xor_assoc, BitVec.xor_comm (b >>> 1) poly, ← BitVec.xor_assoc poly,
            BitVec.xor_self, BitVec.zero_xor]

@[simp] theorem crcSteps_zero (count : Nat) : crcSteps poly count 0#w = 0#w := by
  induction count with
  | zero => rfl
  | succ count ih => rw [crcSteps, crcStep_zero, ih]

theorem crcSteps_xor (count : Nat) (a b : BitVec w) :
    crcSteps poly count (a ^^^ b) = crcSteps poly count a ^^^ crcSteps poly count b := by
  induction count generalizing a b with
  | zero => rfl
  | succ count ih => rw [crcSteps, crcStep_xor, ih, crcSteps, crcSteps]

theorem crcBits_append (c : BitVec w) (first second : List Bool) :
    crcBits poly c (first ++ second) = crcBits poly (crcBits poly c first) second := by
  induction first generalizing c with
  | nil => rfl
  | cons bit first ih => exact ih _

/-- What two messages of one length do to the register differs as the messages do. -/
theorem crcBits_xor (c d : BitVec w) {first second : List Bool}
    (lengths : first.length = second.length) :
    crcBits poly c first ^^^ crcBits poly d second =
      crcBits poly (c ^^^ d) (List.zipWith Bool.xor first second) := by
  induction first generalizing c d second with
  | nil =>
      obtain rfl : second = [] := List.length_eq_zero_iff.mp lengths.symm
      rfl
  | cons bit first ih =>
      cases second with
      | nil => simp at lengths
      | cons bit' second =>
          have bits : ∀ a b : Bool, BitVec.ofNat w a.toNat ^^^ BitVec.ofNat w b.toNat =
              BitVec.ofNat w (Bool.xor a b).toNat := by
            intro a b
            cases a <;> cases b <;> simp
          have apart : c ^^^ BitVec.ofNat w bit.toNat ^^^ (d ^^^ BitVec.ofNat w bit'.toNat) =
              c ^^^ d ^^^ BitVec.ofNat w (Bool.xor bit bit').toNat := by
            rw [← bits, BitVec.xor_assoc, BitVec.xor_assoc,
              ← BitVec.xor_assoc _ d, BitVec.xor_comm _ d, BitVec.xor_assoc d]
          rw [crcBits, crcBits, ih _ _ (by simpa using lengths), ← crcStep_xor, apart,
            List.zipWith_cons_cons, crcBits]

end Linear

/-! ## Bits that go in together -/

section Words

variable (poly : BitVec w)

/-- A step moves a register down whose lowest bit is clear. -/
theorem crcStep_double {value : Nat} (fits : 2 * value < 2 ^ w) :
    crcStep poly (BitVec.ofNat w (2 * value)) = BitVec.ofNat w value := by
  have even : (BitVec.ofNat w (2 * value)).getLsbD 0 = false := by
    rw [BitVec.getLsbD_ofNat, Nat.testBit_zero, Nat.mul_mod_right]
    simp
  rw [crcStep, if_neg (by simp [even])]
  apply BitVec.eq_of_toNat_eq
  rw [BitVec.toNat_ushiftRight, BitVec.toNat_ofNat, BitVec.toNat_ofNat, Nat.mod_eq_of_lt fits,
    Nat.mod_eq_of_lt (by omega), Nat.shiftRight_eq_div_pow]
  omega

/-- The bits of a message that fits the register can go in before the steps. -/
theorem crcBits_eq_steps (c : BitVec w) {bits : List Bool} (fits : bits.length ≤ w) :
    crcBits poly c bits = crcSteps poly bits.length (c ^^^ crcWord w bits) := by
  induction bits generalizing c with
  | nil => simp [crcBits, crcSteps, crcWord, bitsValue]
  | cons bit rest ih =>
      have room : rest.length + 1 ≤ w := fits
      have small : 2 * bitsValue rest < 2 ^ w := by
        have below := bitsValue_lt rest
        have wider : 2 ^ (rest.length + 1) ≤ 2 ^ w := Nat.pow_le_pow_right (by omega) room
        rw [pow_succ] at wider
        omega
      have split : crcWord w (bit :: rest) =
          BitVec.ofNat w bit.toNat ^^^ BitVec.ofNat w (2 * bitsValue rest) := by
        apply BitVec.eq_of_toNat_eq
        have bitSmall := Bool.toNat_le bit
        have rowSmall := bitsValue_lt (bit :: rest)
        have wider : 2 ^ (bit :: rest).length ≤ 2 ^ w := Nat.pow_le_pow_right (by omega) fits
        rw [bitsValue] at rowSmall
        rw [crcWord, bitsValue, BitVec.toNat_xor, BitVec.toNat_ofNat, BitVec.toNat_ofNat,
          BitVec.toNat_ofNat, Nat.mod_eq_of_lt (by omega), Nat.mod_eq_of_lt (by omega),
          Nat.mod_eq_of_lt small]
        cases bit with
        | false => simp
        | true =>
            rw [Bool.toNat_true, Nat.xor_comm, Nat.add_comm]
            exact (Nat.xor_one_of_even (even_two_mul _)).symm
      rw [crcBits, ih _ (by omega), List.length_cons, crcSteps, split, ← BitVec.xor_assoc,
        crcStep_xor poly (c ^^^ _), crcStep_double poly small, crcWord]

end Words

/-! ## A byte at a time from a table -/

section Bytes

variable (poly : BitVec w)

/-- Steps that only move a register down whose low bits are clear. -/
theorem crcSteps_clear {count : Nat} {value : Nat} (fits : 2 ^ count * value < 2 ^ w) :
    crcSteps poly count (BitVec.ofNat w (2 ^ count * value)) = BitVec.ofNat w value := by
  induction count with
  | zero => simp [crcSteps]
  | succ count ih =>
      have doubled : 2 ^ (count + 1) * value = 2 * (2 ^ count * value) := by ring
      rw [doubled] at fits ⊢
      rw [crcSteps, crcStep_double poly fits, ih (by omega)]

/-- The low bits go through the steps, the others only move down. -/
theorem crcSteps_split (count : Nat) (x : BitVec w) :
    crcSteps poly count x =
      crcSteps poly count (x &&& BitVec.ofNat w (2 ^ count - 1)) ^^^ (x >>> count) := by
  have whole := Nat.mod_add_div x.toNat (2 ^ count)
  have fits : 2 ^ count * (x.toNat / 2 ^ count) < 2 ^ w :=
    lt_of_le_of_lt (Nat.mul_div_le _ _) x.isLt
  have low : x &&& BitVec.ofNat w (2 ^ count - 1) = BitVec.ofNat w (x.toNat % 2 ^ count) := by
    apply BitVec.eq_of_getLsbD_eq
    intro i inside
    rw [BitVec.getLsbD_and, BitVec.getLsbD_ofNat, BitVec.getLsbD_ofNat, Nat.testBit_mod_two_pow,
      Nat.testBit_two_pow_sub_one, BitVec.testBit_toNat]
    simp [inside, Bool.and_comm]
  have high : x >>> count = BitVec.ofNat w (x.toNat / 2 ^ count) := by
    apply BitVec.eq_of_toNat_eq
    rw [BitVec.toNat_ushiftRight, Nat.shiftRight_eq_div_pow, BitVec.toNat_ofNat,
      Nat.mod_eq_of_lt (lt_of_le_of_lt (Nat.div_le_self _ _) x.isLt)]
  have split : x = BitVec.ofNat w (x.toNat % 2 ^ count) ^^^
      BitVec.ofNat w (2 ^ count * (x.toNat / 2 ^ count)) := by
    apply BitVec.eq_of_toNat_eq
    have below := Nat.mod_lt x.toNat (Nat.two_pow_pos count)
    rw [BitVec.toNat_xor, BitVec.toNat_ofNat, BitVec.toNat_ofNat,
      Nat.mod_eq_of_lt (lt_of_le_of_lt (Nat.mod_le _ _) x.isLt), Nat.mod_eq_of_lt fits]
    apply Nat.eq_of_testBit_eq
    intro i
    rw [Nat.testBit_xor, Nat.testBit_mod_two_pow, Nat.testBit_two_pow_mul,
      Nat.testBit_div_two_pow]
    by_cases small : i < count
    · have notHigh : ¬ count ≤ i := by omega
      simp [small, notHigh]
    · have above : count ≤ i := by omega
      simp [small, above]
  rw [low, high]
  conv => lhs; rw [split]
  rw [crcSteps_xor, crcSteps_clear poly fits]

/-- The register after a byte, by a table of what eight steps make of a byte. -/
theorem crcBits_byte (c : BitVec w) (byte : Byte) (wide : 8 ≤ w) :
    crcBits poly c (byteBits byte) =
      crcSteps poly 8 ((c ^^^ BitVec.ofNat w byte.toNat) &&& BitVec.ofNat w 0xff) ^^^
        (c >>> 8) := by
  have room : 2 ^ 8 ≤ 2 ^ w := Nat.pow_le_pow_right (by omega) wide
  have small := byte.toNat_lt
  have moved : BitVec.ofNat w byte.toNat >>> 8 = 0#w := by
    apply BitVec.eq_of_toNat_eq
    rw [BitVec.toNat_ushiftRight, BitVec.toNat_ofNat, Nat.mod_eq_of_lt (by omega),
      Nat.shiftRight_eq_div_pow, BitVec.toNat_ofNat, Nat.zero_mod]
    omega
  rw [crcBits_eq_steps poly c (by simpa using wide), length_byteBits, crcWord,
    bitsValue_byteBits, crcSteps_split, BitVec.ushiftRight_xor_distrib, moved, BitVec.xor_zero]
  rfl

end Bytes

/-! ## Errors -/

section Errors

variable {poly : BitVec w}

/-- With the lowest term in the polynomial a step loses nothing. -/
theorem eq_zero_of_crcStep (wide : 0 < w) (lowest : poly.getLsbD (w - 1) = true) {c : BitVec w}
    (vanishes : crcStep poly c = 0#w) : c = 0#w := by
  have topClear : (c >>> 1).getLsbD (w - 1) = false := by
    rw [BitVec.getLsbD_ushiftRight]
    exact BitVec.getLsbD_of_ge c _ (by omega)
  have low : c.getLsbD 0 = false := by
    by_contra set
    have top : (crcStep poly c).getLsbD (w - 1) = true := by
      rw [crcStep, if_pos (by simpa using set), BitVec.getLsbD_xor, topClear, lowest]
      rfl
    rw [vanishes] at top
    simp at top
  rw [crcStep, if_neg (by simp [low])] at vanishes
  apply BitVec.eq_of_getLsbD_eq
  intro i inside
  cases i with
  | zero => simpa using low
  | succ i =>
      have bit : (c >>> 1).getLsbD i = (0#w).getLsbD i := by rw [vanishes]
      rw [BitVec.getLsbD_ushiftRight, Nat.add_comm] at bit
      simpa using bit

theorem eq_zero_of_crcSteps (wide : 0 < w) (lowest : poly.getLsbD (w - 1) = true) {count : Nat}
    {c : BitVec w} (vanishes : crcSteps poly count c = 0#w) : c = 0#w := by
  induction count generalizing c with
  | zero => exact vanishes
  | succ count ih => exact eq_zero_of_crcStep wide lowest (ih vanishes)

/-- A message of clear bits only moves the register. -/
theorem crcBits_clear (poly c : BitVec w) (count : Nat) :
    crcBits poly c (List.replicate count false) = crcSteps poly count c := by
  induction count generalizing c with
  | zero => rfl
  | succ count ih =>
      rw [List.replicate_succ, crcBits, crcSteps, Bool.toNat_false, BitVec.xor_zero, ih]

/-- An error that starts anywhere and is not longer than the register changes the code. -/
theorem crcBits_burst (wide : 0 < w) (lowest : poly.getLsbD (w - 1) = true) {before behind : Nat}
    {burst : List Bool} (fits : burst.length ≤ w)
    (unseen : crcBits poly 0#w
      (List.replicate before false ++ burst ++ List.replicate behind false) = 0#w) :
    bitsValue burst = 0 := by
  rw [crcBits_append, crcBits_append, crcBits_clear, crcBits_clear, crcSteps_zero,
    crcBits_eq_steps poly _ fits, BitVec.zero_xor] at unseen
  have word := eq_zero_of_crcSteps wide lowest (eq_zero_of_crcSteps wide lowest unseen)
  have value := congrArg BitVec.toNat word
  rwa [crcWord, BitVec.toNat_ofNat, BitVec.toNat_ofNat, Nat.zero_mod, Nat.mod_eq_of_lt
    (lt_of_lt_of_le (bitsValue_lt burst) (Nat.pow_le_pow_right (by omega) fits))] at value

/-- Rows of one length with no difference are the same. -/
theorem eq_of_xor_clear {first second : List Bool} (lengths : first.length = second.length)
    (clear : bitsValue (List.zipWith Bool.xor first second) = 0) : first = second := by
  induction first generalizing second with
  | nil =>
      obtain rfl : second = [] := List.length_eq_zero_iff.mp lengths.symm
      rfl
  | cons bit first ih =>
      cases second with
      | nil => simp at lengths
      | cons bit' second =>
          rw [List.zipWith_cons_cons, bitsValue] at clear
          have bits : (Bool.xor bit bit').toNat = 0 := by omega
          have equal : bit = bit' := by
            cases bit <;> cases bit' <;> simp_all
          rw [equal, ih (by simpa using lengths) (by omega)]

/-- Messages with the same code that differ only in a part no longer than the register
are the same. -/
theorem crcBits_detects (wide : 0 < w) (lowest : poly.getLsbD (w - 1) = true) {c : BitVec w}
    {common first second rest : List Bool} (lengths : first.length = second.length)
    (fits : first.length ≤ w)
    (same : crcBits poly c (common ++ first ++ rest) = crcBits poly c (common ++ second ++ rest)) :
    first = second := by
  have apart := crcBits_xor poly c c
    (show (common ++ first ++ rest).length = (common ++ second ++ rest).length by simp [lengths])
  have clear : ∀ bits : List Bool, List.zipWith Bool.xor bits bits =
      List.replicate bits.length false := by
    intro bits
    induction bits with
    | nil => rfl
    | cons bit bits ih => simp [List.replicate_succ]
  rw [same, BitVec.xor_self, BitVec.xor_self, List.zipWith_append (by simp [lengths]),
    List.zipWith_append rfl, clear, clear] at apart
  exact eq_of_xor_clear lengths (crcBits_burst wide lowest (by simp [← lengths, fits]) apart.symm)

end Errors

end Cromwell.Std
