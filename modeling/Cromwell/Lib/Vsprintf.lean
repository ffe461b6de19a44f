import Cromwell.Std.Numerals
import Cromwell.Std.TextBuffer

/-!
# Formatting

`vsprintf` with the conversions that texts on the screen are made with: strings, characters
and decimal numbers, without flags, widths or precisions. The text is as long as its
arguments make it.
-/

namespace Cromwell.Lib

open Cromwell.Std

/-- An argument: an `int`, a `char` or the characters of a string. -/
inductive Argument
  | int (value : Int32)
  | char (c : Byte)
  | string (characters : List Byte)

/-- `number`, for base 10 and no flag but `SIGN`. -/
def number (num : Int32) : List Byte :=
  (decimalText num.toInt).map fun digit => UInt8.ofNat digit.toNat

/-- `vsprintf`: the text without its terminator. There is none where a conversion is another
one, or does not get an argument of its own. -/
def vsprintf : (fmt : List Byte) → (args : List Argument) → Option (List Byte)
  | [], _ => some []
  -- `%s`, `%c` and `%d`
  | 0x25 :: 0x73 :: fmt, .string s :: args => (vsprintf fmt args).map (s ++ ·)
  | 0x25 :: 0x63 :: fmt, .char c :: args => (vsprintf fmt args).map (c :: ·)
  | 0x25 :: 0x64 :: fmt, .int num :: args => (vsprintf fmt args).map (number num ++ ·)
  | 0x25 :: _, _ => none
  | c :: fmt, args => (vsprintf fmt args).map (c :: ·)

/-- A number has at most ten digits and a sign. -/
theorem length_number_le (num : Int32) : (number num).length ≤ 11 := by
  have lower := num.le_toInt
  have upper := num.toInt_lt
  have digits : ∀ magnitude : Nat, magnitude ≤ 2 ^ 31 →
      (Nat.toDigits 10 magnitude).length ≤ 10 := by
    intro magnitude small
    rw [Nat.length_toDigits_le_iff (by decide) (by decide)]
    omega
  unfold number decimalText
  rw [List.length_map]
  split
  · next magnitude same =>
    rw [same, Int.ofNat_eq_natCast] at upper
    have short := digits magnitude (by omega)
    omega
  · next magnitude same =>
    rw [same, Int.negSucc_eq] at lower
    have short := digits (magnitude + 1) (by omega)
    rw [List.length_cons]
    omega

theorem number_nonzero (num : Int32) : ∀ c ∈ number num, c ≠ 0 := by
  have digit : ∀ magnitude, ∀ c ∈ Nat.toDigits 10 magnitude, UInt8.ofNat c.toNat ≠ 0 := by
    intro magnitude c member zero
    have inside := Nat.isDigit_of_mem_toDigits (by decide) (by decide) member
    simp only [Char.isDigit, Bool.and_eq_true, decide_eq_true_eq] at inside
    have lower : 48 ≤ c.toNat := inside.1
    have upper : c.toNat ≤ 57 := inside.2
    have value := congrArg UInt8.toNat zero
    rw [UInt8.toNat_ofNat', Nat.mod_eq_of_lt (by omega)] at value
    rw [value] at lower
    exact absurd lower (by decide)
  intro c member
  obtain ⟨digitChar, present, rfl⟩ := List.mem_map.mp member
  unfold decimalText at present
  split at present
  · exact digit _ _ present
  · rcases List.mem_cons.mp present with rfl | later
    · decide
    · exact digit _ _ later

/-- What an argument becomes. -/
def Argument.characters : Argument → List Byte
  | int value => number value
  | char c => [c]
  | string characters => characters

@[simp] theorem characters_int (value : Int32) :
    (Argument.int value).characters = number value := rfl

@[simp] theorem characters_char (c : Byte) : (Argument.char c).characters = [c] := rfl

@[simp] theorem characters_string (s : List Byte) : (Argument.string s).characters = s := rfl

section Texts

variable {fmt formatted : List Byte} {args : List Argument}

/-- Every character of a text is one of the format or of an argument. -/
theorem vsprintf_nonzero (made : vsprintf fmt args = some formatted) (plain : ∀ c ∈ fmt, c ≠ 0)
    (solid : ∀ argument ∈ args, ∀ c ∈ argument.characters, c ≠ 0) :
    ∀ c ∈ formatted, c ≠ 0 := by
  fun_induction vsprintf fmt args generalizing formatted with
  | case1 =>
      cases made
      simp
  | case2 fmt s args ih =>
      obtain ⟨rest, later, rfl⟩ := Option.map_eq_some_iff.mp made
      simp only [List.forall_mem_cons, List.forall_mem_append] at plain solid ⊢
      exact ⟨solid.1, ih later plain.2.2 solid.2⟩
  | case3 fmt c args ih =>
      obtain ⟨rest, later, rfl⟩ := Option.map_eq_some_iff.mp made
      simp only [List.forall_mem_cons, characters_char] at plain solid ⊢
      exact ⟨solid.1.1, ih later plain.2.2 solid.2⟩
  | case4 fmt num args ih =>
      obtain ⟨rest, later, rfl⟩ := Option.map_eq_some_iff.mp made
      simp only [List.forall_mem_cons, List.forall_mem_append] at plain solid ⊢
      exact ⟨solid.1, ih later plain.2.2 solid.2⟩
  | case5 => cases made
  | case6 c fmt args _ _ _ _ ih =>
      obtain ⟨rest, later, rfl⟩ := Option.map_eq_some_iff.mp made
      simp only [List.forall_mem_cons] at plain ⊢
      exact ⟨plain.1, ih later plain.2 solid⟩

/-- A text is no longer than its format and its arguments. -/
theorem length_vsprintf_le (made : vsprintf fmt args = some formatted) :
    formatted.length ≤
      fmt.length + (args.map fun argument => argument.characters.length).sum := by
  fun_induction vsprintf fmt args generalizing formatted with
  | case1 =>
      cases made
      simp
  | case2 fmt s args ih =>
      obtain ⟨rest, later, rfl⟩ := Option.map_eq_some_iff.mp made
      have shorter := ih later
      simp only [List.length_append, List.length_cons, List.map_cons, List.sum_cons,
        characters_string]
      omega
  | case3 fmt c args ih =>
      obtain ⟨rest, later, rfl⟩ := Option.map_eq_some_iff.mp made
      have shorter := ih later
      simp only [List.length_cons, List.map_cons, List.sum_cons, characters_char,
        List.length_nil]
      omega
  | case4 fmt num args ih =>
      obtain ⟨rest, later, rfl⟩ := Option.map_eq_some_iff.mp made
      have shorter := ih later
      simp only [List.length_append, List.length_cons, List.map_cons, List.sum_cons,
        characters_int]
      omega
  | case5 => cases made
  | case6 c fmt args _ _ _ _ ih =>
      obtain ⟨rest, later, rfl⟩ := Option.map_eq_some_iff.mp made
      have shorter := ih later
      simp only [List.length_cons]
      omega

end Texts

end Cromwell.Lib
