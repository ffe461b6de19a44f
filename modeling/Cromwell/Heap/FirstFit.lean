import Cromwell.Heap.History
import Mathlib.Order.Bounds.Basic

/-!
# First fit

The three searches of `t_malloc` are one: the block goes to the least cluster from
which on enough entries are free, and the marks it leaves are those of its own
entries. The entries may be bytes behind the table, which the searches read as well.
-/

namespace Cromwell.Heap

open Cromwell.Std

/-- The clusters that a block of this length can begin in. -/
def fits (start : Nat) (memory : Memory) (clusters : Nat) : Set Nat :=
  {cluster | 1 ≤ cluster ∧ cluster ≤ 0x3ff ∧ RunFree start memory cluster clusters}

/-- The entries of a block are marked as used, and no other byte has changed. -/
structure MarksBlock (start : Nat) (memory after : Memory) (block : Block) : Prop where
  used : ∀ k < block.clusters, after (start + (block.cluster + k)) ≠ 0
  others : ∀ x, x < start + block.cluster ∨ start + block.stop ≤ x → after x = memory x

variable {start size clusters cluster : Nat} {memory : Memory}

/-- What the search finds is the least of them. -/
theorem firstFree_eq_some_iff_isLeast :
    firstFree start memory clusters = some cluster ↔
      IsLeast (fits start memory clusters) cluster := by
  rw [firstFree_eq_some]
  constructor
  · rintro ⟨free, lower, upper, earlier⟩
    refine ⟨⟨lower, Nat.le_of_lt_succ upper, free⟩, ?_⟩
    rintro other ⟨lower', -, free'⟩
    by_contra before
    exact earlier other lower' (Nat.lt_of_not_le before) free'
  · rintro ⟨⟨lower, upper, free⟩, least⟩
    refine ⟨free, lower, Nat.lt_succ_of_le upper, ?_⟩
    intro other lower' before free'
    have inside : other ∈ fits start memory clusters :=
      ⟨lower', Nat.le_trans (Nat.le_of_lt before) upper, free'⟩
    exact absurd (least inside) (Nat.not_le_of_lt before)

/-- The tag of a block marks its entries and nothing else. -/
theorem marksBlock_stamp (cluster size : Nat) :
    MarksBlock start memory (stamp start memory ⟨cluster, clustersFor size⟩)
      ⟨cluster, clustersFor size⟩ where
  used k bound := by
    rw [stamp_inside _ bound]
    exact tagByte_ne_zero bound (clustersFor_class size)
  others _ outside := stamp_outside _ outside

/-- Allocation is first fit and complete, for every size that is served. -/
theorem tMalloc_firstFit (arena : start + arenaSize ≤ 2 ^ 32) (memory : Memory)
    (served : size ≤ largestRequest) :
    (∀ cluster, IsLeast (fits start memory (clustersFor size)) cluster →
      (tMalloc start memory size).1 = Block.address start ⟨cluster, clustersFor size⟩ ∧
        MarksBlock start memory (tMalloc start memory size).2 ⟨cluster, clustersFor size⟩) ∧
    ((tMalloc start memory size).1 = 0 ↔ fits start memory (clustersFor size) = ∅) ∧
    ((tMalloc start memory size).1 = 0 → (tMalloc start memory size).2 = memory) := by
  rcases tMalloc_cases arena memory size with ⟨failed, noRun⟩ | ⟨-, found, search, result⟩
  · have none : fits start memory (clustersFor size) = ∅ := by
      rw [Set.eq_empty_iff_forall_notMem]
      rintro cluster ⟨lower, upper, free⟩
      exact noRun ⟨served, cluster, lower, Nat.lt_succ_of_le upper, free⟩
    rw [failed]
    refine ⟨?_, iff_of_true rfl none, fun _ => rfl⟩
    intro cluster least
    have member := least.1
    rw [none] at member
    exact member.elim
  · have least := firstFree_eq_some_iff_isLeast.mp search
    have nonzero : Block.address start ⟨found, clustersFor size⟩ ≠ 0 :=
      Block.address_ne_zero least.1.1
    rw [result]
    refine ⟨?_, iff_of_false nonzero ?_, fun zero => absurd zero nonzero⟩
    · intro cluster least'
      obtain rfl := least.unique least'
      exact ⟨rfl, marksBlock_stamp _ _⟩
    · intro none
      have member := least.1
      rw [none] at member
      exact member

/-- The first block of 5 MiB begins in the first cluster of the arena. -/
theorem tMalloc_firstFit_memoryManagerStart :
    (tMalloc memoryManagerStart emptyHeap.memory 0x500000).1 =
      Block.address memoryManagerStart ⟨1, 321⟩ := by
  have count : clustersFor 0x500000 = 321 := by decide
  have least : IsLeast (fits memoryManagerStart emptyHeap.memory (clustersFor 0x500000)) 1 := by
    rw [count]
    refine ⟨⟨Nat.le_refl 1, by decide, fun k bound => ?_⟩, fun other member => member.1⟩
    exact filledTo_emptyHeap.2 _ (by omega) (by omega)
  have first := ((tMalloc_firstFit (by decide) emptyHeap.memory (by decide)).1 1 least).1
  rwa [count] at first

end Cromwell.Heap
