import Cromwell.Std.Memory
import Mathlib.Tactic.Ring

/-!
# Sums in ones' complement

A sum of 16-bit words in which carries are added back at the low end. It is a number from 0 to
0xFFFF that is known modulo 0xFFFF and is 0 only if nothing was added. Bytes are added as words
with the low byte first; where a row of bytes is begun one place later, its sum has its bytes
the other way round.
-/

namespace Cromwell.Std

/-- A sum with its carries added back. -/
def wrap (n : Nat) : Nat := if n = 0 then 0 else (n - 1) % 0xFFFF + 1

theorem wrap_le (n : Nat) : wrap n ≤ 0xFFFF := by
  unfold wrap
  split <;> omega

theorem wrap_of_le {n : Nat} (bound : n ≤ 0xFFFF) : wrap n = n := by
  unfold wrap
  split <;> omega

/-- Sums are told apart by their remainders, and from nothing at all. -/
theorem wrap_eq_iff (m n : Nat) :
    wrap m = wrap n ↔ (m = 0 ↔ n = 0) ∧ m % 0xFFFF = n % 0xFFFF := by
  unfold wrap
  split <;> split <;> omega

theorem wrap_mod (n : Nat) : wrap n % 0xFFFF = n % 0xFFFF := by
  unfold wrap
  split <;> omega

theorem wrap_eq_zero (n : Nat) : wrap n = 0 ↔ n = 0 := by
  unfold wrap
  split <;> omega

/-- Carries may be added back at any time. -/
theorem wrap_wrap_add (m n : Nat) : wrap (wrap m + n) = wrap (m + n) := by
  have remainder := wrap_mod m
  have zero := wrap_eq_zero m
  rw [wrap_eq_iff]
  omega

theorem wrap_add_wrap (m n : Nat) : wrap (m + wrap n) = wrap (m + n) := by
  rw [Nat.add_comm, wrap_wrap_add, Nat.add_comm]

/-- The sum of two sums has one carry at most. -/
theorem wrap_two {m n : Nat} (first : m ≤ 0xFFFF) (second : n ≤ 0xFFFF) :
    wrap (m + n) = if m + n > 0xFFFF then m + n - 0xFFFF else m + n := by
  unfold wrap
  split <;> split <;> omega

/-- What a sum lacks fills it up. -/
theorem wrap_filled (n : Nat) : wrap (n + (0xFFFF - wrap n)) = 0xFFFF := by
  unfold wrap
  split <;> split <;> omega

theorem wrap_add_full {n : Nat} (full : wrap n = 0xFFFF) : wrap (n + 0xFFFF) = 0xFFFF := by
  unfold wrap at *
  split at full <;> split <;> omega

/-- Two values in a sum with others are told apart, unless they are the two zeros. -/
theorem wrap_add_eq_iff {others m n : Nat} (first : m ≤ 0xFFFF) (second : n ≤ 0xFFFF) :
    wrap (others + m) = wrap (others + n) ↔
      m = n ∨ others ≠ 0 ∧ (m = 0 ∧ n = 0xFFFF ∨ m = 0xFFFF ∧ n = 0) := by
  rw [wrap_eq_iff]
  omega

/-! ## Bytes -/

/-- The bytes of a word change places. -/
def swapBytes (n : Nat) : Nat := n % 2 ^ 8 * 2 ^ 8 + n / 2 ^ 8

theorem swapBytes_mod (n : Nat) :
    swapBytes n % 0xFFFF = 256 * n % 0xFFFF := by
  unfold swapBytes
  omega

/-- What a byte counts for at a place. -/
def weighed (i : Nat) (byte : Byte) : Nat :=
  if i % 2 = 1 then byte.toNat * 2 ^ 8 else byte.toNat

theorem weighed_le (i : Nat) (byte : Byte) : weighed i byte ≤ 0xFF00 := by
  have bound := byte.toNat_lt
  unfold weighed
  split <;> omega

/-- All bytes from a place on, without any carries added back. -/
def total : (i : Nat) → List Byte → Nat
  | _, [] => 0
  | i, byte :: data => weighed i byte + total (i + 1) data

variable (data : List Byte)

theorem total_append (i : Nat) (first second : List Byte) :
    total i (first ++ second) = total i first + total (i + first.length) second := by
  induction first generalizing i with
  | nil => simp [total]
  | cons byte first ih =>
      have place : i + 1 + first.length = i + (first.length + 1) := by omega
      rw [List.cons_append, total, total, ih, List.length_cons, place, Nat.add_assoc]

theorem weighed_add_two (i : Nat) (byte : Byte) : weighed (i + 2) byte = weighed i byte := by
  unfold weighed
  rw [Nat.add_mod_right]

theorem total_add_two (i : Nat) : total (i + 2) data = total i data := by
  induction data generalizing i with
  | nil => rfl
  | cons byte data ih =>
      rw [total, total, weighed_add_two, Nat.add_right_comm, ih]

/-- Only the parity of the place matters. -/
theorem total_parity (i : Nat) : total i data = total (i % 2) data := by
  induction i using Nat.twoStepInduction with
  | zero => rfl
  | one => rfl
  | more i ih _ => rw [total_add_two, ih, Nat.add_mod_right]

theorem weighed_succ_mod (i : Nat) (byte : Byte) :
    weighed (i + 1) byte % 0xFFFF = 256 * weighed i byte % 0xFFFF := by
  unfold weighed
  split <;> split <;> omega

/-- One place later every byte counts 256 times as much. -/
theorem total_succ_mod (i : Nat) : total (i + 1) data % 0xFFFF = 256 * total i data % 0xFFFF := by
  induction data generalizing i with
  | nil => rfl
  | cons byte data ih =>
      have head := weighed_succ_mod i byte
      have tail := ih (i + 1)
      rw [total, total]
      omega

theorem weighed_eq_zero (i : Nat) (byte : Byte) : weighed i byte = 0 ↔ byte.toNat = 0 := by
  unfold weighed
  split <;> omega

/-- Nothing is added by zeros alone. -/
theorem total_eq_zero (i : Nat) : total i data = 0 ↔ ∀ byte ∈ data, byte = 0 := by
  induction data generalizing i with
  | nil => simp [total]
  | cons byte data ih =>
      have zero : byte.toNat = 0 ↔ byte = 0 := by
        rw [← UInt8.toNat_inj]
        rfl
      rw [total, Nat.add_eq_zero_iff, weighed_eq_zero, ih, zero, List.forall_mem_cons]

/-- One place later the sum has its bytes the other way round. -/
theorem wrap_total_succ (i : Nat) :
    wrap (total (i + 1) data) = swapBytes (wrap (total i data)) := by
  have bound := wrap_le (total i data)
  have small : swapBytes (wrap (total i data)) ≤ 0xFFFF := by
    unfold swapBytes
    omega
  have zero : swapBytes (wrap (total i data)) = 0 ↔ total i data = 0 := by
    rw [← wrap_eq_zero (total i data)]
    unfold swapBytes
    omega
  have both : total (i + 1) data = 0 ↔ total i data = 0 := by
    rw [total_eq_zero, total_eq_zero]
  have later := total_succ_mod data i
  have swapped := swapBytes_mod (wrap (total i data))
  have remainder := wrap_mod (total i data)
  rw [← wrap_of_le small, wrap_eq_iff, both, zero]
  refine ⟨Iff.rfl, ?_⟩
  rw [later, swapped, Nat.mul_mod, ← remainder, ← Nat.mul_mod]

/-! ## Words -/

/-- A word in memory, its low byte first. -/
def wordBytes (n : Nat) : List Byte := [UInt8.ofNat n, UInt8.ofNat (n / 2 ^ 8)]

theorem total_wordBytes {i n : Nat} (even : i % 2 = 0) (bound : n ≤ 0xFFFF) :
    total i (wordBytes n) = n := by
  rw [wordBytes, total, total, total, weighed, weighed, if_neg (by omega), if_pos (by omega),
    UInt8.toNat_ofNat', UInt8.toNat_ofNat']
  omega

/-- A word at an even place is added to what the other bytes make. -/
theorem total_word {front rest : List Byte} {n : Nat} (even : front.length % 2 = 0)
    (bound : n ≤ 0xFFFF) :
    total 0 (front ++ wordBytes n ++ rest) = total 0 (front ++ rest) + n := by
  have length : (front ++ wordBytes n).length = front.length + 2 := by
    simp [wordBytes]
  rw [total_append, total_append, total_append, Nat.zero_add, Nat.zero_add, length,
    total_add_two, total_wordBytes even bound]
  omega

end Cromwell.Std
