import Cromwell.Lib.Vsprintf
import Cromwell.Std.CString

/-!
# Printing to the screen

`printk` formats into a buffer of fixed size and looks at the length of the text
afterwards. A text that fits is displayed as it is; a longer one has been written behind the
buffer before it is cut.
-/

namespace Cromwell.Video

open Cromwell.Std Cromwell.Lib

/-- `sizeof(szBuffer)`. -/
def szBufferSize : Nat := 512 * 2

/-- What a call of `printk` writes, by offsets in `szBuffer`, and the text it displays. -/
structure Printed where
  writes : List Extent
  displayed : List Byte

/-- `printk` of a text that has been formatted, with what `szBuffer` and the stack behind it
held before. -/
def printk (szBuffer : Memory) (formatted : List Byte) : Printed :=
  let szBuffer := szBuffer.store 0 (formatted ++ [0])
  let wLength := formatted.length % 0x10000
  let szBuffer := szBuffer.set (szBufferSize - 1) 0
  let wLength := if szBufferSize - 1 < wLength then szBufferSize - 1 else wLength
  let szBuffer := szBuffer.set wLength 0
  { writes := [⟨0, formatted.length + 1⟩, ⟨szBufferSize - 1, 1⟩, ⟨wLength, 1⟩]
    displayed := cut (szBuffer.bytes 0 szBufferSize) }

/-- The call writes to nothing but its buffer, and displays the text as far as that holds it. -/
structure Bounded (szBuffer : Memory) (formatted : List Byte) : Prop where
  inside : ∀ write ∈ (printk szBuffer formatted).writes, write.Within ⟨0, szBufferSize⟩
  displayed : (printk szBuffer formatted).displayed = formatted.take (szBufferSize - 1)

section Texts

variable {szBuffer : Memory} {formatted : List Byte}

/-- A text that leaves room for its terminator is displayed. -/
theorem printk_displayed (nonzero : ∀ c ∈ formatted, c ≠ 0)
    (short : formatted.length < szBufferSize) :
    (printk szBuffer formatted).displayed = formatted := by
  unfold szBufferSize at short
  have length : formatted.length % 0x10000 = formatted.length := Nat.mod_eq_of_lt (by omega)
  have uncut : ¬szBufferSize - 1 < formatted.length := by
    unfold szBufferSize
    omega
  unfold printk
  simp only [length, if_neg uncut]
  have text : (((szBuffer.store 0 (formatted ++ [0])).set (szBufferSize - 1) 0).set
      formatted.length 0).bytes 0 formatted.length = formatted := by
    apply List.ext_getElem
    · simp
    · intro k _ inside
      rw [Memory.getElem_bytes, Nat.zero_add, Memory.set_other _ (by omega),
        Memory.set_other _ (by unfold szBufferSize; omega),
        Memory.store_inside _ (Nat.zero_le k) (by simp; omega)]
      simp [List.getElem_append_left inside]
  have terminated := cut_bytes_eq_iff (((szBuffer.store 0 (formatted ++ [0])).set
    (szBufferSize - 1) 0).set formatted.length 0) 0 formatted.length szBufferSize
  rw [← terminated.mpr (.inr ⟨formatted.length, by simp [szBufferSize]; omega, by simp⟩), text]
  exact cut_of_notMem fun zero => nonzero 0 zero rfl

/-- No more is displayed than the buffer holds. -/
theorem length_displayed_le (szBuffer : Memory) (formatted : List Byte) :
    (printk szBuffer formatted).displayed.length ≤ szBufferSize := by
  unfold printk
  dsimp only
  refine Nat.le_trans (length_cut_le _) ?_
  rw [Memory.length_bytes]

/-- A call is bounded exactly if its text leaves room for the terminator. -/
theorem bounded_iff (nonzero : ∀ c ∈ formatted, c ≠ 0) :
    Bounded szBuffer formatted ↔ formatted.length < szBufferSize := by
  constructor
  · intro bounded
    have written := bounded.inside ⟨0, formatted.length + 1⟩ List.mem_cons_self
    have inside := written.2
    dsimp only at inside
    omega
  · intro short
    have length : formatted.length % 0x10000 ≤ formatted.length := Nat.mod_le _ _
    constructor
    · simp only [printk, List.forall_mem_cons, Extent.Within]
      unfold szBufferSize at short ⊢
      refine ⟨by omega, by omega, ?_, by simp⟩
      split <;> omega
    · rw [printk_displayed nonzero short, List.take_of_length_le (Nat.le_sub_one_of_lt short)]

end Texts

end Cromwell.Video
