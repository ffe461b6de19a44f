import Cromwell.Std.Memory

/-!
# Sliding windows

A circular buffer keeps the end of a history of bytes: the byte at position `m` of
the history stands at `m % size` until `size` further bytes have been written. A
copy from some distance back repeats the history, also where the distance is less
than what is copied and the copy reads what it wrote. Copied in one piece, the
bytes are the same as copied one by one as long as the piece does not run into
its own source.
-/

namespace Cromwell.Std

/-- The history with `count` bytes more, each the one that stands `distance` back. -/
def copyBack (distance : Nat) : (count : Nat) → List Byte → List Byte
  | 0, history => history
  | count + 1, history =>
    copyBack distance count (history ++ [history.getD (history.length - distance) 0])

/-- The buffer holds the last `size` bytes of a history. -/
def WindowHolds (size : Nat) (window : Memory) (history : List Byte) : Prop :=
  ∀ m (inside : m < history.length), history.length ≤ m + size → window (m % size) = history[m]

section Copies

variable (distance : Nat)

theorem copyBack_add (first second : Nat) (history : List Byte) :
    copyBack distance (first + second) history =
      copyBack distance second (copyBack distance first history) := by
  induction first generalizing history with
  | zero => rw [Nat.zero_add, copyBack]
  | succ first ih => rw [Nat.add_right_comm, copyBack, copyBack, ih]

@[simp] theorem length_copyBack (count : Nat) (history : List Byte) :
    (copyBack distance count history).length = history.length + count := by
  induction count generalizing history with
  | zero => rfl
  | succ count ih =>
      rw [copyBack, ih, List.length_append, List.length_singleton]
      omega

/-- The last byte of a copy. -/
theorem copyBack_succ (count : Nat) (history : List Byte) :
    copyBack distance (count + 1) history = copyBack distance count history ++
      [(copyBack distance count history).getD (history.length + count - distance) 0] := by
  rw [copyBack_add, copyBack, copyBack, length_copyBack]

/-- A copy only adds to the history. -/
theorem prefix_copyBack (count : Nat) (history : List Byte) :
    history <+: copyBack distance count history := by
  induction count with
  | zero => exact List.prefix_rfl
  | succ count ih =>
      rw [copyBack_succ]
      exact ih.trans (List.prefix_append _ _)

/-- What stands before everything a copy reads does not matter to it. -/
theorem copyBack_append (count : Nat) {before history : List Byte}
    (near : distance ≤ history.length) :
    copyBack distance count (before ++ history) =
      before ++ copyBack distance count history := by
  induction count generalizing history with
  | zero => rfl
  | succ count ih =>
      have place : (before ++ history).length - distance - before.length =
          history.length - distance := by
        rw [List.length_append]
        omega
      have byte : (before ++ history).getD ((before ++ history).length - distance) 0 =
          history.getD (history.length - distance) 0 := by
        rw [List.getD_append_right _ _ _ _ (by rw [List.length_append]; omega), place]
      rw [copyBack, copyBack, byte, List.append_assoc, ih (by simp; omega)]

end Copies

namespace WindowHolds

variable {size : Nat} {window : Memory} {history : List Byte}

/-- A byte is written over the one that is `size` older. -/
theorem push (holds : WindowHolds size window history) (byte : Byte) :
    WindowHolds size (window.set (history.length % size) byte) (history ++ [byte]) := by
  intro m inside recent
  rw [List.length_append, List.length_singleton] at inside recent
  rcases Nat.lt_or_ge m history.length with older | newest
  · have different : m % size ≠ history.length % size := by
      intro same
      have gap : history.length - m < size := by omega
      have multiple : size ∣ history.length - m :=
        Nat.dvd_of_mod_eq_zero (Nat.sub_mod_eq_zero_of_mod_eq same.symm)
      exact absurd (Nat.le_of_dvd (by omega) multiple) (by omega)
    rw [Memory.set_other _ different, List.getElem_append_left older]
    exact holds m older (by omega)
  · obtain rfl : m = history.length := by omega
    rw [Memory.set_same, List.getElem_append_right (Nat.le_refl _)]
    simp

/-- The byte some distance back. -/
theorem back (holds : WindowHolds size window history) {distance : Nat} (positive : 0 < distance)
    (near : distance ≤ size) (old : distance ≤ history.length) :
    window ((history.length + size - distance) % size) =
      history.getD (history.length - distance) 0 := by
  have place : (history.length + size - distance) % size = (history.length - distance) % size := by
    rw [show history.length + size - distance = history.length - distance + size by omega,
      Nat.add_mod_right]
  have inside : history.length - distance < history.length := by omega
  rw [place, holds _ inside (by omega), List.getD_eq_getElem _ _ inside]

end WindowHolds

/-! ## Copies in one piece -/

section Pieces

variable {size : Nat} {window : Memory} {history : List Byte} {distance w d : Nat}

/-- A piece one byte longer. -/
theorem Memory.memcpy_succ (memory source : Memory) (address origin count : Nat) :
    memory.memcpy address source origin (count + 1) =
      (memory.memcpy address source origin count).set (address + count)
        (source (origin + count)) := by
  funext x
  by_cases last : x = address + count
  · subst last
    rw [set_same, memcpy_inside _ _ (by omega) (by omega), Nat.add_sub_cancel_left]
  · rw [set_other _ last]
    by_cases inside : address ≤ x ∧ x < address + count
    · rw [memcpy_inside _ _ inside.1 (by omega), memcpy_inside _ _ inside.1 inside.2]
    · rw [memcpy_outside _ _ (by omega), memcpy_outside _ _ (by omega)]

/-- Copied byte by byte, forward. -/
def copyForward (address origin : Nat) : (count : Nat) → Memory → Memory
  | 0, memory => memory
  | count + 1, memory =>
    copyForward (address + 1) (origin + 1) count (memory.set address (memory origin))

theorem copyForward_succ (address origin count : Nat) (memory : Memory) :
    copyForward address origin (count + 1) memory =
      (copyForward address origin count memory).set (address + count)
        (copyForward address origin count memory (origin + count)) := by
  induction count generalizing address origin memory with
  | zero => rfl
  | succ count ih =>
      rw [copyForward, ih, copyForward, Nat.add_assoc, Nat.add_assoc, Nat.add_comm 1 count]

/-- A piece that does not run into its own source is what copying byte by byte gives. -/
theorem memcpy_eq_copyForward (memory : Memory) {address origin count : Nat}
    (apart : origin + count ≤ address ∨ address < origin) :
    memory.memcpy address memory origin count = copyForward address origin count memory := by
  induction count with
  | zero =>
      funext x
      rw [Memory.memcpy_outside _ _ (by omega), copyForward]
  | succ count ih =>
      rw [Memory.memcpy_succ, copyForward_succ, ← ih (by omega),
        Memory.memcpy_outside _ _ (by omega : origin + count < address ∨ _)]

/-- A copy that does not run over the end of the buffer, at its source or at its place. -/
theorem WindowHolds.copy (holds : WindowHolds size window history) (positive : 0 < distance)
    (near : distance ≤ size) (old : distance ≤ history.length) (place : history.length % size = w)
    (source : (history.length + size - distance) % size = d) {count : Nat}
    (inside : w + count ≤ size) (sourceInside : d + count ≤ size) :
    WindowHolds size (copyForward w d count window) (copyBack distance count history) := by
  induction count with
  | zero => exact holds
  | succ count ih =>
      have before := ih (by omega) (by omega)
      have move : ∀ n, n % size + count < size → (n + count) % size = n % size + count := by
        intro n small
        rw [Nat.add_mod, Nat.mod_eq_of_lt (show count < size by omega), Nat.mod_eq_of_lt small]
      have address : (history.length + count) % size = w + count := by
        rw [move _ (by omega), place]
      have origin : (history.length + count + size - distance) % size = d + count := by
        rw [show history.length + count + size - distance =
          history.length + size - distance + count by omega, move _ (by omega), source]
      have byte := before.back positive near (by rw [length_copyBack]; omega)
      rw [length_copyBack, origin] at byte
      have pushed := before.push (copyForward w d count window (d + count))
      rw [length_copyBack, address] at pushed
      rw [copyForward_succ, copyBack_succ, ← byte]
      exact pushed

end Pieces

end Cromwell.Std
