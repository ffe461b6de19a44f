import Cromwell.Std.Memory
import Mathlib.Algebra.Group.End
import Mathlib.Logic.Equiv.Basic

/-!
# A stream cipher of permuted words

RC4 over words of any size, in its own terms. A state is a permutation of the words with
two indices. The key schedule exchanges every word once with one that the key selects; the
generator exchanges two words for each word of its stream. Data are masked with the stream,
which does not depend on them, so that masking twice gives the data back.
-/

namespace Cromwell.Std

section Cipher

variable {n : Nat} [NeZero n]

/-- The permutation after some steps of the key schedule, and the index selected last. -/
def keySchedule (key : Nat → Fin n) : (steps : Nat) → Equiv.Perm (Fin n) × Fin n
  | 0 => (1, 0)
  | step + 1 =>
    let (words, j) := keySchedule key step
    let i := Fin.ofNat n step
    let j := j + words i + key step
    (words * Equiv.swap i j, j)

theorem keySchedule_succ (key : Nat → Fin n) (step : Nat) : keySchedule key (step + 1) =
    ((keySchedule key step).1 * Equiv.swap (Fin.ofNat n step)
        ((keySchedule key step).2 + (keySchedule key step).1 (Fin.ofNat n step) + key step),
      (keySchedule key step).2 + (keySchedule key step).1 (Fin.ofNat n step) + key step) := rfl

/-- A state of the generator. -/
structure PermutedWords (n : Nat) where
  words : Equiv.Perm (Fin n)
  i : Fin n
  j : Fin n

namespace PermutedWords

/-- The state a key leads to. The key is repeated until there is a word for every step. -/
def keyed (key : List (Fin n)) : PermutedWords n where
  words := (keySchedule (fun step => key.getD (step % key.length) 0) n).1
  i := 0
  j := 0

theorem keyed_words (key : List (Fin n)) : (keyed key).words =
    (keySchedule (fun step => key.getD (step % key.length) 0) n).1 := rfl

/-- One step of the generator. -/
def advance (state : PermutedWords n) : PermutedWords n :=
  let i := state.i + 1
  let j := state.j + state.words i
  ⟨state.words * Equiv.swap i j, i, j⟩

/-- The word that a step has brought out. -/
def output (state : PermutedWords n) : Fin n :=
  state.words (state.words state.i + state.words state.j)

/-- The word of the stream at a position. -/
def stream (state : PermutedWords n) (position : Nat) : Fin n :=
  (advance^[position + 1] state).output

@[simp] theorem stream_zero (state : PermutedWords n) :
    state.stream 0 = state.advance.output := rfl

/-- The stream goes on from the next state. -/
theorem stream_succ (state : PermutedWords n) (position : Nat) :
    state.stream (position + 1) = state.advance.stream position := rfl

end PermutedWords

end Cipher

/-! ## Masking -/

section Masking

/-- Data combined with a stream, byte by byte. -/
def masked (stream : Nat → Byte) (data : List Byte) : List Byte :=
  data.mapIdx fun position byte => byte ^^^ stream position

variable (stream : Nat → Byte) (data : List Byte)

@[simp] theorem masked_nil : masked stream [] = [] := rfl

@[simp] theorem masked_cons (byte : Byte) : masked stream (byte :: data) =
    (byte ^^^ stream 0) :: masked (fun position => stream (position + 1)) data :=
  List.mapIdx_cons

@[simp] theorem length_masked : (masked stream data).length = data.length :=
  List.length_mapIdx

/-- Masking undoes masking. -/
theorem masked_masked : masked stream (masked stream data) = data := by
  induction data generalizing stream with
  | nil => rfl
  | cons byte data ih =>
      rw [masked_cons, masked_cons, ih, UInt8.xor_assoc, UInt8.xor_self, UInt8.xor_zero]

end Masking

end Cromwell.Std
