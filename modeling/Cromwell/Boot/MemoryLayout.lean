import Cromwell.Std.Memory
import Cromwell.Std.Program
import Mathlib.Tactic.Tauto

/-!
# The memory layout

Every kind of file a boot loader reads has a range of memory of its own. The loaders run
on the memory together with a record of the ranges they have stored file data to, and of
those they have cleared or moved such data to. The windows lie apart from the descriptor
tables, the heap and the program itself.
-/

namespace Cromwell.Boot

open Cromwell.Std

def kernelSetup : Nat := 0x90000
def kernelHdrSize : Nat := 4 * 1024
def gdtLoc : Nat := 0xA0000
def idtLoc : Nat := 0xB0000
/-- The segment descriptors and the descriptor of their table. -/
def gdtSize : Nat := 56
def idtSize : Nat := 2048
def kernelPmCode : Nat := 0x00100000
def kernelPmCodeEnd : Nat := 0x00900000
def initrdStart : Nat := kernelPmCodeEnd
def maxInitrdEnd : Nat := 0x02A00000
def maxKernelSize : Nat := kernelPmCodeEnd - kernelPmCode
def maxInitrdSize : Nat := maxInitrdEnd - initrdStart
def freeldrLoadArea : Nat := 0x00001000
def freeldrMaxSize : Nat := 0x80000
def memoryManagerStart : Nat := maxInitrdEnd

/-- What a file is read for. -/
inductive Purpose where
  | config
  | kernel
  | initrd
  | freeldr
  deriving DecidableEq

/-- The memory reserved for a file. A kernel is loaded where the initrd comes later, and
moved from there. -/
def Purpose.window : Purpose → Extent
  | config => ⟨kernelSetup, kernelHdrSize⟩
  | kernel => ⟨initrdStart, maxKernelSize⟩
  | initrd => ⟨initrdStart, maxInitrdSize⟩
  | freeldr => ⟨freeldrLoadArea, freeldrMaxSize⟩

/-- File data stored to a range of memory. -/
structure Write where
  purpose : Purpose
  extent : Extent

/-- The write stays in the memory reserved for it. -/
def Write.Inside (write : Write) : Prop := write.extent.Within write.purpose.window

/-- The descriptor tables, and the heap with everything behind it, the program among it. -/
def Reserved (address : Nat) : Prop :=
  (gdtLoc ≤ address ∧ address < gdtLoc + gdtSize) ∨
    (idtLoc ≤ address ∧ address < idtLoc + idtSize) ∨ memoryManagerStart ≤ address

/-- No byte of the range is reserved. -/
def Spares (extent : Extent) : Prop :=
  ∀ address, extent.start ≤ address → address < extent.start + extent.length → ¬Reserved address

/-- An empty range holds nothing. -/
theorem spares_empty {extent : Extent} (empty : extent.length = 0) : Spares extent := by
  intro address lower upper
  omega

/-- A range between the descriptor tables and the heap is not reserved. -/
theorem spares_of_behind {extent : Extent} (behind : kernelPmCode ≤ extent.start)
    (before : extent.start + extent.length ≤ memoryManagerStart) : Spares extent := by
  intro address lower upper reserved
  unfold Reserved gdtLoc gdtSize idtLoc idtSize at reserved
  unfold kernelPmCode at behind
  omega

/-- A range behind the first megabyte is not reserved exactly if it is empty or ends before
the heap. -/
theorem spares_iff_of_behind {extent : Extent} (behind : kernelPmCode ≤ extent.start) :
    Spares extent ↔
      extent.length = 0 ∨ extent.start + extent.length ≤ memoryManagerStart := by
  constructor
  · intro spares
    rcases Nat.eq_zero_or_pos extent.length with empty | some
    · exact .inl empty
    · have last := spares (extent.start + extent.length - 1) (by omega) (by omega)
      unfold Reserved at last
      exact .inr (by omega)
  · rintro (empty | before)
    · exact spares_empty empty
    · exact spares_of_behind behind before

/-- A range that ends below the descriptor tables is not reserved. -/
theorem spares_of_below {extent : Extent} (below : extent.start + extent.length ≤ gdtLoc) :
    Spares extent := by
  intro address lower upper reserved
  unfold Reserved gdtLoc idtLoc memoryManagerStart maxInitrdEnd at reserved
  unfold gdtLoc at below
  omega

/-- Every window ends below the descriptor tables, or lies between them and the heap. -/
theorem Purpose.window_free (purpose : Purpose) :
    purpose.window.start + purpose.window.length ≤ gdtLoc ∨
      (kernelPmCode ≤ purpose.window.start ∧
        purpose.window.start + purpose.window.length ≤ memoryManagerStart) := by
  cases purpose <;> decide

/-- A write that stays inside leaves the descriptor tables, the heap and everything behind
it alone. -/
theorem Write.Inside.spares {write : Write} (inside : write.Inside) : Spares write.extent := by
  obtain ⟨start, stop⟩ := inside
  rcases write.purpose.window_free with below | ⟨behind, before⟩
  · exact spares_of_below (by omega)
  · exact spares_of_behind (by omega) (by omega)

/-- The memory, what file data has been stored, and what other ranges have been changed so
far, the latest first. -/
structure Ram where
  memory : Memory
  writes : List Write
  moved : List Extent

/-- Every write so far has stayed inside, and nothing that is reserved has been changed. -/
structure Ram.Respects (ram : Ram) : Prop where
  inside : ∀ write ∈ ram.writes, write.Inside
  spares : ∀ extent ∈ ram.writes.map Write.extent ++ ram.moved, Spares extent

/-- The memory with further writes recorded. -/
def Ram.after (ram : Ram) (purpose : Purpose) (memory : Memory) (extents : List Extent) : Ram :=
  { ram with memory := memory, writes := extents.map (⟨purpose, ·⟩) ++ ram.writes }

/-- The memory with another range changed. -/
def Ram.move (ram : Ram) (memory : Memory) (extent : Extent) : Ram :=
  { ram with memory := memory, moved := extent :: ram.moved }

/-- `memset` with zeros. -/
def clear (address count : Nat) : Program Ram Unit :=
  .update fun ram => ((), ram.move (ram.memory.memset address 0 count) ⟨address, count⟩)

/-- `memcpy`, or `memmove`, of what is in memory already. -/
def copy (target source count : Nat) : Program Ram Unit :=
  .update fun ram =>
    ((), ram.move (ram.memory.memcpy target ram.memory source count) ⟨target, count⟩)

@[simp] theorem memory_after (ram : Ram) (purpose : Purpose) (memory : Memory)
    (extents : List Extent) : (ram.after purpose memory extents).memory = memory := rfl

@[simp] theorem memory_move (ram : Ram) (memory : Memory) (extent : Extent) :
    (ram.move memory extent).memory = memory := rfl

section Rules

variable {ram : Ram} {cut : Ram → Prop} {returned : Unit → Ram → Prop}

/-- What holds after a range has been cleared. -/
@[simp] theorem ensures_clear {address count : Nat} :
    (clear address count).Ensures ram cut returned ↔
      returned () (ram.move (ram.memory.memset address 0 count) ⟨address, count⟩) := Iff.rfl

/-- What holds after a range has been copied to. -/
@[simp] theorem ensures_copy {target source count : Nat} :
    (copy target source count).Ensures ram cut returned ↔
      returned () (ram.move (ram.memory.memcpy target ram.memory source count)
        ⟨target, count⟩) := Iff.rfl

/-- Writes that stay inside are safe without further ado. -/
theorem respects_iff : ram.Respects ↔
    (∀ write ∈ ram.writes, write.Inside) ∧ ∀ extent ∈ ram.moved, Spares extent := by
  constructor
  · rintro ⟨inside, spares⟩
    exact ⟨inside, fun extent member => spares extent (List.mem_append_right _ member)⟩
  · rintro ⟨inside, spares⟩
    refine ⟨inside, fun extent member => ?_⟩
    rcases List.mem_append.mp member with written | moved
    · obtain ⟨write, stored, rfl⟩ := List.mem_map.mp written
      exact (inside write stored).spares
    · exact spares extent moved

/-- Nothing has been written yet. -/
theorem respects_start {memory : Memory} : Ram.Respects ⟨memory, [], []⟩ := by
  simp [respects_iff]

/-- A range that is changed must hold nothing reserved. -/
theorem respects_move {memory : Memory} {extent : Extent} :
    (ram.move memory extent).Respects ↔ Spares extent ∧ ram.Respects := by
  simp only [respects_iff, Ram.move, List.forall_mem_cons]
  tauto

/-- File data must lie in the window of its purpose. -/
theorem respects_after {purpose : Purpose} {memory : Memory} {extents : List Extent} :
    (ram.after purpose memory extents).Respects ↔
      (∀ extent ∈ extents, extent.Within purpose.window) ∧ ram.Respects := by
  simp only [respects_iff, Ram.after, List.forall_mem_append, List.forall_mem_map, Write.Inside]
  tauto

end Rules

end Cromwell.Boot
