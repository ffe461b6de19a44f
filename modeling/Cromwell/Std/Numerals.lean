import Mathlib.Data.List.Basic
import Mathlib.Tactic.Ring

/-!
# Numbers in texts

Numbers are printed with a fixed width in hexadecimal, or in decimal, and read as C and
the assembler read literals: a prefix tells the base, and a sign may stand in front. What has
been printed is read back.
-/

namespace Cromwell.Std

/-! ## Splitting -/

universe u

section Splitting

variable {α : Type u} [DecidableEq α] {separator : α} {first rest : List α}

theorem splitOn_of_notMem (apart : separator ∉ first) : first.splitOn separator = [first] := by
  have only : List.splitOn separator ([separator].intercalate [first]) = [first] :=
    List.splitOn_intercalate separator
      (fun part member => List.mem_singleton.mp member ▸ apart) (List.cons_ne_nil _ _)
  simpa [List.intercalate] using only

/-- A text is split at the first separator, and on behind it. -/
theorem splitOn_append_cons (apart : separator ∉ first) :
    (first ++ separator :: rest).splitOn separator = first :: rest.splitOn separator := by
  have cut : (first ++ separator :: rest).splitOnP (· == separator) = _ :=
    List.splitOnP_append_cons first rest (beq_self_eq_true separator)
  have whole : first.splitOnP (· == separator) = [first] := splitOn_of_notMem apart
  rw [whole] at cut
  exact cut

end Splitting

/-! ## Hexadecimal -/

/-- The value of a hexadecimal digit. -/
def hexDigit (c : Char) : Option Nat :=
  if '0' ≤ c ∧ c ≤ '9' then some (c.toNat - '0'.toNat)
  else if 'a' ≤ c ∧ c ≤ 'f' then some (c.toNat - 'a'.toNat + 10)
  else if 'A' ≤ c ∧ c ≤ 'F' then some (c.toNat - 'A'.toNat + 10)
  else none

/-- The number a string of hexadecimal digits stands for. -/
def hexValue (digits : List Char) : Option Nat :=
  digits.foldlM (fun value c => (hexDigit c).map (16 * value + ·)) 0

/-- The last digits of a number, as many as the width asks for. -/
def hexText : (width value : Nat) → List Char
  | 0, _ => []
  | width + 1, value => hexText width (value / 16) ++ [Nat.digitChar (value % 16)]

theorem hexDigit_digitChar {digit : Nat} (small : digit < 16) :
    hexDigit (Nat.digitChar digit) = some digit := by
  have all : ∀ digit : Fin 16, hexDigit (Nat.digitChar digit) = some digit.val := by decide
  exact all ⟨digit, small⟩

/-- Only digits are printed. -/
theorem hexDigit_of_mem_hexText {width value : Nat} {c : Char} (member : c ∈ hexText width value) :
    (hexDigit c).isSome := by
  induction width generalizing value with
  | zero => cases member
  | succ width ih =>
      rcases List.mem_append.mp member with before | last
      · exact ih before
      · rw [List.mem_singleton.mp last, hexDigit_digitChar (Nat.mod_lt _ (by decide))]
        rfl

theorem notMem_hexText {width value : Nat} {c : Char} (other : hexDigit c = none) :
    c ∉ hexText width value := by
  intro member
  have digit := hexDigit_of_mem_hexText member
  rw [other] at digit
  cases digit

/-- A number that is wide enough for is read back. -/
theorem hexValue_hexText {width value : Nat} (fits : value < 16 ^ width) :
    hexValue (hexText width value) = some value := by
  induction width generalizing value with
  | zero =>
      rw [pow_zero, Nat.lt_one_iff] at fits
      rw [fits]
      rfl
  | succ width ih =>
      have front : value / 16 < 16 ^ width := by
        rw [pow_succ] at fits
        exact Nat.div_lt_of_lt_mul (Nat.mul_comm _ _ ▸ fits)
      have read := ih front
      unfold hexValue at read ⊢
      rw [hexText, List.foldlM_append, read]
      simp only [Option.bind_eq_bind, Option.bind_some, List.foldlM_cons, List.foldlM_nil,
        hexDigit_digitChar (Nat.mod_lt value (by decide : 0 < 16)), Option.map_some]
      rw [Nat.div_add_mod]
      rfl

/-! ## Literals -/

/-- A literal without a sign. -/
def readUnsigned : List Char → Option Nat
  | [] => none
  | '0' :: 'x' :: digits => if digits = [] then none else hexValue digits
  | '0' :: digits =>
    if digits.all fun c => '0' ≤ c ∧ c ≤ '7' then some (Nat.ofDigitChars 8 digits 0) else none
  | digits => if digits.all Char.isDigit then some (Nat.ofDigitChars 10 digits 0) else none

/-- A literal that may have a sign. -/
def readInteger : List Char → Option Int
  | '-' :: digits => (readUnsigned digits).map fun value => -(value : Int)
  | digits => (readUnsigned digits).map Int.ofNat

/-- `%d`. -/
def decimalText (value : Int) : List Char :=
  match value with
  | .ofNat magnitude => Nat.toDigits 10 magnitude
  | .negSucc magnitude => '-' :: Nat.toDigits 10 (magnitude + 1)

/-- A printed hexadecimal number is read back. -/
theorem readInteger_hexText {width value : Nat} (fits : value < 16 ^ (width + 1)) :
    readInteger ('0' :: 'x' :: hexText (width + 1) value) = some (value : Int) := by
  have some_digits : hexText (width + 1) value ≠ [] := by
    rw [hexText]
    exact List.append_ne_nil_of_right_ne_nil _ (List.cons_ne_nil _ _)
  change Option.map Int.ofNat (if hexText (width + 1) value = [] then none
    else hexValue (hexText (width + 1) value)) = _
  rw [if_neg some_digits, hexValue_hexText fits]
  rfl

/-- A positive number does not start with a zero. -/
theorem head_toDigits {value : Nat} (positive : 0 < value) (digits : List Char) :
    Nat.toDigits 10 value ≠ '0' :: digits := by
  induction value using Nat.strongRecOn generalizing digits with
  | ind value ih =>
      intro zero
      rcases Nat.lt_or_ge value 10 with short | long
      · rw [Nat.toDigits_of_lt_base short] at zero
        have digit : Nat.digitChar value = '0' := (List.cons.inj zero).1
        have other : ∀ digit : Fin 10, 0 < digit.val → Nat.digitChar digit ≠ '0' := by decide
        exact other ⟨value, short⟩ positive digit
      · rw [Nat.toDigits_of_base_le (by decide) long] at zero
        obtain ⟨c, front, first⟩ := List.exists_cons_of_ne_nil
          (Nat.toDigits_ne_nil : Nat.toDigits 10 (value / 10) ≠ [])
        rw [first, List.cons_append] at zero
        rw [(List.cons.inj zero).1] at first
        exact ih (value / 10) (by omega) (by omega) front first

/-- A literal without a prefix is decimal. -/
theorem readInteger_decimal {c : Char} {rest : List Char} (notSign : c ≠ '-') (notZero : c ≠ '0')
    (digits : ∀ digit ∈ c :: rest, digit.isDigit) :
    readInteger (c :: rest) = some (Nat.ofDigitChars 10 (c :: rest) 0 : Int) := by
  have base : readUnsigned (c :: rest) = some (Nat.ofDigitChars 10 (c :: rest) 0) := by
    unfold readUnsigned
    split
    next same => cases same
    next same => exact absurd (List.cons.inj same).1 notZero
    next same => exact absurd (List.cons.inj same).1 notZero
    next => rw [if_pos (List.all_eq_true.mpr digits)]
  unfold readInteger
  split
  next same => exact absurd (List.cons.inj same).1 notSign
  next =>
    rw [base]
    rfl

/-- A printed positive decimal number is read back. -/
theorem readInteger_decimalText {value : Nat} (positive : 0 < value) :
    readInteger (decimalText (value : Int)) = some (value : Int) := by
  have digits : ∀ c ∈ Nat.toDigits 10 value, c.isDigit := fun c member =>
    Nat.isDigit_of_mem_toDigits (by decide) (by decide) member
  have back : Nat.ofDigitChars 10 (Nat.toDigits 10 value) 0 = value :=
    Nat.ofDigitChars_toDigits (by decide) (by decide)
  change readInteger (Nat.toDigits 10 value) = _
  cases shape : Nat.toDigits 10 value with
  | nil => exact absurd shape Nat.toDigits_ne_nil
  | cons c rest =>
      have notZero : c ≠ '0' := fun zero => head_toDigits positive rest (zero ▸ shape)
      rw [shape] at digits back
      have notSign : c ≠ '-' := by
        rintro rfl
        exact absurd (digits '-' List.mem_cons_self) (by decide)
      rw [readInteger_decimal notSign notZero digits, back]

end Cromwell.Std
