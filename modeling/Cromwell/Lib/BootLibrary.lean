import Cromwell.Std.TextBuffer

/-!
# String functions

The functions of the library that work in place are programs over a buffer, the others are
given the strings themselves.
-/

namespace Cromwell.Lib

open Cromwell.Std Cromwell.Std.TextBuffer Cromwell.Std.Program

/-- `isspace` -/
def isspace (c : Byte) : Bool := c = 0x20 || c = 0x09 || c = 0x0d || c = 0x0a

/-- `strlen`: the bytes from the place on up to a zero. -/
def strlen (s : Nat) : Program TextBuffer Nat := do
  let stop ← scan (· = 0) s
  return stop - s

/-- Ends the string at `s` at the first of the given characters, and returns where it goes
on behind that. -/
def strsep (s : Nat) (ct : List Byte) : Program TextBuffer (Option Nat) := do
  let stop ← scan (fun c => c = 0 || ct.contains c) s
  let c ← read stop
  if c = 0 then
    return none
  else
    put stop 0
    return some (stop + 1)

/-- `chrreplace`: every byte of the string that is the one searched is replaced. -/
def chrreplace (string : Nat) (search ch : Byte) : Program TextBuffer Unit :=
  mapString (fun c => if c = search then ch else c) string

/-- Whether two strings agree on their first `count` characters. -/
def strncmp : (cs ct : List Byte) → (count : Nat) → Bool
  | _, _, 0 => true
  | [], [], _ + 1 => true
  | c :: cs, d :: ct, count + 1 => c = d && strncmp cs ct count
  | _, _, _ + 1 => false

/-- The string and zeros behind it, `count` bytes in all. -/
def strncpy (string : List Byte) (count : Nat) : List Byte :=
  (string ++ List.replicate (count - string.length) 0).take count

/-- A string begins with another one. -/
theorem strncmp_iff_prefix {cs ct : List Byte} : strncmp cs ct ct.length = true ↔ ct <+: cs := by
  induction ct generalizing cs with
  | nil => simp [strncmp]
  | cons d ct ih =>
      cases cs with
      | nil => simp [strncmp]
      | cons c cs =>
          rw [List.length_cons, strncmp, Bool.and_eq_true, decide_eq_true_iff, ih,
            List.cons_prefix_cons, eq_comm]

section Rules

variable {buffer : TextBuffer} {bound s : Nat} {ct before middle after : List Byte} {c : Byte}

/-- The length of a string is the place of its zero. -/
theorem strlen_spec (shape : buffer.bytes = before ++ (middle ++ 0 :: after))
    (place : before.length = s) (going : ∀ byte ∈ middle, byte ≠ 0)
    (within : buffer.Within bound) (fits : s + middle.length + 1 ≤ bound) :
    (strlen s).Ensures buffer (fun _ => False) fun length state =>
      length = middle.length ∧ state.bytes = buffer.bytes ∧ state.Within bound := by
  refine (scan_spec (· = 0) shape place (by simpa using going) (by simp) within
    fits).andThen ?_
  rintro _ state ⟨rfl, same, within⟩
  exact ⟨Nat.add_sub_cancel_left s middle.length, same, within⟩

/-- A string is ended at the first of the characters, or it has ended there. -/
theorem strsep_spec (shape : buffer.bytes = before ++ (middle ++ c :: after))
    (place : before.length = s) (going : ∀ byte ∈ middle, byte ≠ 0 ∧ byte ∉ ct)
    (stopped : c = 0 ∨ c ∈ ct) (within : buffer.Within bound)
    (fits : s + middle.length + 1 ≤ bound) :
    (strsep s ct).Ensures buffer (fun _ => False) fun next state =>
      next = (if c = 0 then none else some (s + middle.length + 1)) ∧
        state.bytes = before ++ (middle ++ 0 :: after) ∧ state.Within bound := by
  have passed : ∀ byte ∈ middle, (byte = 0 || ct.contains byte) = false := by
    intro byte member
    simp [going byte member]
  have ended : (c = 0 || ct.contains c) = true := by simpa using stopped
  refine (scan_spec _ shape place passed ended within fits).andThen ?_
  rintro _ scanned ⟨rfl, same, within⟩
  have split : scanned.bytes = (before ++ middle) ++ c :: after := by
    rw [same, shape, List.append_assoc]
  have reached : (before ++ middle).length = s + middle.length := by
    rw [List.length_append, place]
  refine (read_spec split reached within fits).andThen ?_
  rintro byte found ⟨found_byte, same, within⟩
  rw [found_byte]
  split
  · next atEnd =>
    refine ⟨rfl, ?_, within⟩
    rw [same, split, atEnd, List.append_assoc]
  · next more =>
    refine (put_spec (same.trans split) reached within fits).andThen ?_
    rintro _ state ⟨bytes, within⟩
    refine ⟨rfl, ?_, within⟩
    rw [bytes, List.append_assoc]

/-- The string is changed byte by byte, and nothing behind its zero. -/
theorem chrreplace_spec {search ch : Byte} (shape : buffer.bytes = before ++ (middle ++ 0 :: after))
    (place : before.length = s) (going : ∀ byte ∈ middle, byte ≠ 0)
    (within : buffer.Within bound) (fits : s + middle.length + 1 ≤ bound) :
    (chrreplace s search ch).Ensures buffer (fun _ => False) fun _ state =>
      state.bytes = before ++ (middle.map (fun c => if c = search then ch else c) ++ 0 :: after) ∧
        state.Within bound :=
  mapString_spec shape place going within fits

/-- Measuring a string takes no access beyond the bound back. -/
theorem stable_strlen (s : Nat) : Stable (¬Within bound ·) (strlen s) :=
  .bind (stable_scan s) fun stop => .pure (stop - s)

/-- Nor does taking a word off. -/
theorem stable_strsep (s : Nat) (ct : List Byte) : Stable (¬Within bound ·) (strsep s ct) :=
  .bind (stable_scan s) fun stop => .bind (stable_read stop) fun _ =>
    .ite (.pure none) (.bind (stable_put stop 0) fun _ => .pure (some (stop + 1)))

end Rules

end Cromwell.Lib
