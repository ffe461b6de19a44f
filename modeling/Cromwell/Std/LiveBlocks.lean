import Mathlib.Data.List.Basic

/-!
# Live blocks

An allocator that hands out blocks by number, so that what a program still holds can be
compared with what was held before. No number is given twice.
-/

namespace Cromwell.Std

/-- The blocks that are live, all of them numbered below the next one. -/
structure LiveBlocks where
  live : List Nat
  next : Nat
  fresh : ∀ block ∈ live, block < next

namespace LiveBlocks

/-- Nothing has been handed out. -/
def empty : LiveBlocks where
  live := []
  next := 0
  fresh _ member := absurd member List.not_mem_nil

/-- The next number is handed out. -/
def malloc (blocks : LiveBlocks) : LiveBlocks where
  live := blocks.next :: blocks.live
  next := blocks.next + 1
  fresh block member := by
    rcases List.mem_cons.mp member with rfl | before
    · exact Nat.lt_succ_self _
    · exact Nat.lt_succ_of_lt (blocks.fresh block before)

/-- A block is given back; one that is not live changes nothing. -/
def free (blocks : LiveBlocks) (block : Nat) : LiveBlocks where
  live := blocks.live.filter (· ≠ block)
  next := blocks.next
  fresh other member := blocks.fresh other (List.mem_of_mem_filter member)

/-- The same blocks are live. -/
def Same (blocks other : LiveBlocks) : Prop := ∀ block, block ∈ blocks.live ↔ block ∈ other.live

/-- Every block that is live in the one is live in the other, which has been handed out no
fewer blocks. -/
structure Grown (blocks other : LiveBlocks) : Prop where
  kept : ∀ block ∈ blocks.live, block ∈ other.live
  next : blocks.next ≤ other.next

section Rules

variable {blocks other later : LiveBlocks} {block held : Nat}

/-- Live after a `malloc` are the new block and those before. -/
@[simp] theorem mem_malloc : held ∈ blocks.malloc.live ↔ held = blocks.next ∨ held ∈ blocks.live :=
  List.mem_cons

/-- Numbers are handed out in turn. -/
@[simp] theorem next_malloc : blocks.malloc.next = blocks.next + 1 := rfl

/-- Live after a `free` are all blocks but that one. -/
@[simp] theorem mem_free : held ∈ (blocks.free block).live ↔ held ∈ blocks.live ∧ held ≠ block := by
  simp [free]

theorem Same.refl (blocks : LiveBlocks) : blocks.Same blocks := fun _ => Iff.rfl

/-- Two changes that leave the same blocks live do so together. -/
theorem Same.trans (first : blocks.Same other) (second : other.Same later) : blocks.Same later :=
  fun block => (first block).trans (second block)

theorem Grown.refl (blocks : LiveBlocks) : blocks.Grown blocks :=
  ⟨fun _ member => member, Nat.le_refl _⟩

/-- Two changes that only add blocks do so together. -/
theorem Grown.trans (first : blocks.Grown other) (second : other.Grown later) :
    blocks.Grown later :=
  ⟨fun block member => second.kept block (first.kept block member),
    Nat.le_trans first.next second.next⟩

/-- A `malloc` only adds a block. -/
theorem grown_malloc (blocks : LiveBlocks) : blocks.Grown blocks.malloc :=
  ⟨fun _ member => mem_malloc.mpr (.inr member), Nat.le_succ _⟩

/-- A block that has been handed out since can be given back. -/
theorem Grown.free (grown : blocks.Grown other) (since : blocks.next ≤ block) :
    blocks.Grown (other.free block) := by
  refine ⟨fun held member => mem_free.mpr ⟨grown.kept held member, ?_⟩, grown.next⟩
  exact Nat.ne_of_lt (Nat.lt_of_lt_of_le (blocks.fresh held member) since)

/-- Two blocks that are taken and given back leave the same ones live. -/
theorem same_free_free (blocks : LiveBlocks) : blocks.Same
    ((blocks.malloc.malloc.free blocks.next).free blocks.malloc.next) := by
  intro block
  have old : block ∈ blocks.live → block < blocks.next := blocks.fresh block
  simp only [mem_free, mem_malloc, next_malloc]
  constructor
  · intro member
    have bound := old member
    exact ⟨⟨.inr (.inr member), by omega⟩, by omega⟩
  · rintro ⟨⟨rfl | rfl | member, first⟩, second⟩
    · exact absurd rfl second
    · exact absurd rfl first
    · exact member

end Rules

end LiveBlocks

end Cromwell.Std
