import Cromwell.Heap.ClusterTable
import Mathlib.Tactic.IntervalCases
import Mathlib.Tactic.SplitIfs

/-!
# Blocks and their tags

A block is a run of clusters. `t_malloc` marks the run in the cluster table with
a byte string that depends only on its length, `tagByte`; the three size classes
of the source differ only in that length. `tMalloc_eq` states the allocator in
these terms, for every request it can serve: it takes the first free run and
writes the tag.
-/

namespace Cromwell.Heap

open Cromwell.Std

/-- The clusters handed out for a request of `size` bytes. -/
def clustersFor (size : Nat) : Nat :=
  if size ≤ 0x4000 then 1 else if size ≤ 0x10000 then 4 else size / 0x4000 + 1

/-- The largest request `t_malloc` serves. -/
def largestRequest : Nat := 5 * 1024 * 1024

/-- The table byte of the `k`-th cluster of a block. -/
def tagByte (clusters k : Nat) : Byte :=
  if clusters = 1 then 0xAA
  else if clusters = 4 then (dwordBytes 0xB8BADCFE).getD k 0
  else if k = 0 ∨ k + 1 = clusters then 0xBB
  else if k = 1 ∨ k + 2 = clusters then 0xCC
  else 0xFF

/-- The size of the arena that the table describes. -/
def arenaSize : Nat := 0x1000000

/-- A run of clusters. -/
@[ext]
structure Block where
  cluster : Nat
  clusters : Nat
deriving DecidableEq

namespace Block

/-- The address of a block in the arena at `start`. -/
def address (start : Nat) (block : Block) : Nat := start + block.cluster * 0x4000

/-- One past the last cluster. -/
def stop (block : Block) : Nat := block.cluster + block.clusters

/-- Two blocks share no cluster. -/
def Disjoint (left right : Block) : Prop :=
  left.stop ≤ right.cluster ∨ right.stop ≤ left.cluster

end Block

/-- The table entries of a run are all zero. -/
def RunFree (start : Nat) (memory : Memory) (cluster clusters : Nat) : Prop :=
  ∀ k, k < clusters → memory (start + (cluster + k)) = 0

instance (start : Nat) (memory : Memory) (cluster clusters : Nat) :
    Decidable (RunFree start memory cluster clusters) :=
  inferInstanceAs (Decidable (∀ k, k < clusters → _))

/-- The first cluster of the first free run of the given length, as far as the
search loops look. -/
def firstFree (start : Nat) (memory : Memory) (clusters : Nat) : Option Nat :=
  searchTable fun cluster => decide (RunFree start memory cluster clusters)

/-- Some free run of this length begins in the table. -/
def SomeRunFree (start : Nat) (memory : Memory) (clusters : Nat) : Prop :=
  ∃ cluster, 1 ≤ cluster ∧ cluster < 0x400 ∧ RunFree start memory cluster clusters

/-- Mark a block in the table. -/
def stamp (start : Nat) (memory : Memory) (block : Block) : Memory := fun x =>
  if start + block.cluster ≤ x ∧ x < start + block.stop then
    tagByte block.clusters (x - (start + block.cluster))
  else memory x

/-! ## Sizes and tags -/

theorem clustersFor_pos (size : Nat) : 0 < clustersFor size := by
  unfold clustersFor
  split <;> try split
  all_goals omega

/-- The three size classes, told apart by their length. -/
theorem clustersFor_class (size : Nat) :
    clustersFor size = 1 ∨ clustersFor size = 4 ∨ 5 ≤ clustersFor size := by
  unfold clustersFor
  split <;> try split
  all_goals omega

/-- The clusters of a block hold the bytes asked for. -/
theorem size_le_clustersFor (size : Nat) : size ≤ clustersFor size * 0x4000 := by
  unfold clustersFor
  split <;> try split
  all_goals omega

theorem clustersFor_le {size : Nat} (served : size ≤ largestRequest) : clustersFor size ≤ 321 := by
  unfold largestRequest at served
  unfold clustersFor
  split <;> try split
  all_goals omega

theorem tagByte_one (k : Nat) : tagByte 1 k = 0xAA := rfl

theorem tagByte_large {clusters : Nat} (large : 5 ≤ clusters) (k : Nat) :
    tagByte clusters k =
      if k = 0 ∨ k + 1 = clusters then 0xBB
      else if k = 1 ∨ k + 2 = clusters then 0xCC else 0xFF := by
  have notOne : clusters ≠ 1 := by omega
  have notFour : clusters ≠ 4 := by omega
  simp [tagByte, notOne, notFour]

theorem tagByte_four {k : Nat} (bound : k < 4) :
    tagByte 4 k = 0xFE ∧ k = 0 ∨ tagByte 4 k = 0xDC ∧ k = 1 ∨
      tagByte 4 k = 0xBA ∧ k = 2 ∨ tagByte 4 k = 0xB8 ∧ k = 3 := by
  interval_cases k <;> decide

/-- No cluster of a block is marked free. -/
theorem tagByte_ne_zero {clusters k : Nat} (bound : k < clusters)
    (sizeClass : clusters = 1 ∨ clusters = 4 ∨ 5 ≤ clusters) : tagByte clusters k ≠ 0 := by
  rcases sizeClass with rfl | rfl | large
  · rw [tagByte_one]
    decide
  · rcases tagByte_four bound with ⟨tag, _⟩ | ⟨tag, _⟩ | ⟨tag, _⟩ | ⟨tag, _⟩ <;>
      rw [tag] <;> decide
  · rw [tagByte_large large]
    split
    · decide
    · split <;> decide

/-! ## The table search -/

theorem searchTable_eq_some {found : Nat → Bool} {cluster : Nat} :
    searchTable found = some cluster ↔
      found cluster = true ∧ 1 ≤ cluster ∧ cluster < 0x400 ∧
        ∀ other, 1 ≤ other → other < cluster → found other = false := by
  simp only [searchTable, List.find?_range'_eq_some, List.mem_range'_1, Bool.not_eq_true']
  constructor
  · rintro ⟨hit, ⟨lower, upper⟩, earlier⟩
    exact ⟨hit, lower, by omega, earlier⟩
  · rintro ⟨hit, lower, upper, earlier⟩
    exact ⟨hit, ⟨lower, by omega⟩, earlier⟩

theorem searchTable_eq_none {found : Nat → Bool} :
    searchTable found = none ↔
      ∀ cluster, 1 ≤ cluster → cluster < 0x400 → found cluster = false := by
  simp [searchTable]

variable {start : Nat} {memory : Memory} {size clusters cluster : Nat}

theorem firstFree_eq_some :
    firstFree start memory clusters = some cluster ↔
      RunFree start memory cluster clusters ∧ 1 ≤ cluster ∧ cluster < 0x400 ∧
        ∀ other, 1 ≤ other → other < cluster → ¬RunFree start memory other clusters := by
  simp [firstFree, searchTable_eq_some]

theorem firstFree_eq_none :
    firstFree start memory clusters = none ↔
      ∀ cluster, 1 ≤ cluster → cluster < 0x400 → ¬RunFree start memory cluster clusters := by
  simp [firstFree, searchTable_eq_none]

/-- A free run in reach of the search makes it succeed, no later than there. -/
theorem firstFree_le {candidate : Nat} (lower : 1 ≤ candidate) (upper : candidate < 0x400)
    (free : RunFree start memory candidate clusters) :
    ∃ cluster, firstFree start memory clusters = some cluster ∧ cluster ≤ candidate := by
  cases search : firstFree start memory clusters with
  | none => exact absurd free (firstFree_eq_none.mp search candidate lower upper)
  | some cluster =>
      refine ⟨cluster, rfl, ?_⟩
      by_contra later
      exact (firstFree_eq_some.mp search).2.2.2 candidate lower (by omega) free

/-! ## Stamped memories -/

theorem stamp_inside (block : Block) {k : Nat} (bound : k < block.clusters) :
    stamp start memory block (start + (block.cluster + k)) = tagByte block.clusters k := by
  have inside : start + block.cluster ≤ start + (block.cluster + k) ∧
      start + (block.cluster + k) < start + block.stop := by
    unfold Block.stop
    omega
  have offset : start + (block.cluster + k) - (start + block.cluster) = k := by omega
  simp [stamp, inside, offset]

theorem stamp_outside (block : Block) {x : Nat}
    (outside : x < start + block.cluster ∨ start + block.stop ≤ x) :
    stamp start memory block x = memory x := by
  have separate : ¬(start + block.cluster ≤ x ∧ x < start + block.stop) := by omega
  simp [stamp, separate]

/-! ## The allocator -/

/-- The tag of a 64K block is one word. -/
theorem store_eq_stamp :
    memory.store (start + cluster) (dwordBytes 0xB8BADCFE) = stamp start memory ⟨cluster, 4⟩ := by
  funext x
  by_cases inside : start + cluster ≤ x ∧ x < start + cluster + 4
  · obtain ⟨lower, upper⟩ := inside
    have bound : x - (start + cluster) < 4 := by omega
    have here : start + cluster ≤ x ∧ x < start + Block.stop ⟨cluster, 4⟩ := by
      simp only [Block.stop]
      omega
    rw [stamp, if_pos here, Memory.store, if_pos lower, tagByte,
      if_neg (show 4 ≠ 1 by decide), if_pos rfl]
    rw [List.getD_eq_getElem _ _ (by simpa using bound),
      List.getD_eq_getElem _ _ (by simpa using bound)]
  · rw [Memory.store_outside _ (by rw [length_dwordBytes]; omega),
      stamp_outside _ (by simp only [Block.stop]; omega)]

/-- The five stores that mark a large block write its tag. -/
theorem marks_eq_stamp (large : 5 ≤ clusters) :
    (((((memory.memset (start + cluster) 0xFF clusters).set (start + cluster) 0xBB).set
      (start + (cluster + 1)) 0xCC).set (start + (cluster + clusters - 2)) 0xCC).set
      (start + (cluster + clusters - 1)) 0xBB) = stamp start memory ⟨cluster, clusters⟩ := by
  funext x
  simp only [Memory.set, Memory.memset, stamp, Block.stop, tagByte_large large]
  split_ifs <;> first | rfl | omega

theorem holdsDword_zero :
    holdsDword memory (start + cluster) 0 = decide (RunFree start memory cluster 4) := by
  rw [holdsDword, Bool.eq_iff_iff, beq_iff_eq, decide_eq_true_iff]
  constructor
  · intro same k bound
    have item := List.getElem_of_eq same (by simpa using bound : k < _)
    rw [Memory.getElem_bytes] at item
    rw [← Nat.add_assoc, item]
    interval_cases k <;> rfl
  · intro free
    apply List.ext_getElem (by simp)
    intro k left _
    have bound : k < 4 := by simpa using left
    rw [Memory.getElem_bytes, Nat.add_assoc, free k bound]
    interval_cases k <;> rfl

/-- A request that is too large gets nothing. -/
theorem tMalloc_oversized (oversized : largestRequest < size) :
    tMalloc start memory size = (0, memory) := by
  unfold largestRequest at oversized
  have notSmall : ¬size < 0x4000 + 1 := by omega
  have notMiddle : ¬size < 0x10000 + 1 := by omega
  have notLarge : ¬size < 5 * 1024 * 1024 + 1 := by omega
  rw [tMalloc, if_neg notSmall, if_neg notMiddle, if_neg notLarge]

/-- `t_malloc` gives out the first free run and marks it, whatever the size class. -/
theorem tMalloc_eq (served : size ≤ largestRequest) :
    tMalloc start memory size =
      match firstFree start memory (clustersFor size) with
      | some cluster =>
          ((start + cluster * 0x4000) % 2 ^ 32,
            stamp start memory ⟨cluster, clustersFor size⟩)
      | none => (0, memory) := by
  unfold largestRequest at served
  by_cases small : size ≤ 0x4000
  · have one : clustersFor size = 1 := by simp [clustersFor, small]
    have sameSearch : (fun counter => memory (start + counter) == 0) =
        fun cluster => decide (RunFree start memory cluster 1) := by
      funext counter
      simp [RunFree, Bool.beq_eq_decide_eq]
    have sameMark : ∀ counter,
        memory.set (start + counter) 0xAA = stamp start memory ⟨counter, 1⟩ := by
      intro counter
      funext x
      have single : (start + counter ≤ x ∧ x < start + (counter + 1)) ↔ x = start + counter := by
        omega
      simp only [Memory.set, stamp, Block.stop, tagByte_one, single]
    rw [tMalloc, if_pos (by omega), one, firstFree, sameSearch]
    cases searchTable fun cluster => decide (RunFree start memory cluster 1) with
    | none => rfl
    | some counter => simp only [sameMark]
  by_cases middle : size ≤ 0x10000
  · have four : clustersFor size = 4 := by simp [clustersFor, small, middle]
    rw [tMalloc, if_neg (by omega), if_pos (by omega), four, firstFree]
    simp only [holdsDword_zero]
    cases searchTable fun cluster => decide (RunFree start memory cluster 4) with
    | none => rfl
    | some counter => simp only [store_eq_stamp]
  · have count : clustersFor size = size / 0x4000 + 1 := by simp [clustersFor, small, middle]
    have masked : size &&& 0xffffc000 = size / 0x4000 * 0x4000 :=
      and_highMask 32 14 (by omega) (by omega)
    have needed : ((size &&& 0xffffc000) + 0x4000) / 0x4000 = clustersFor size := by
      rw [masked, count]
      omega
    have large : 5 ≤ clustersFor size := by omega
    have sameSearch : (fun counter => (List.range (clustersFor size)).all fun blockcount =>
          memory (start + (counter + blockcount)) == 0) =
        fun cluster => decide (RunFree start memory cluster (clustersFor size)) := by
      funext counter
      rw [Bool.eq_iff_iff, decide_eq_true_iff]
      simp [RunFree]
    rw [tMalloc, if_neg (by omega), if_neg (by omega), if_pos (by omega), firstFree]
    simp only [needed, sameSearch]
    cases searchTable fun cluster =>
        decide (RunFree start memory cluster (clustersFor size)) with
    | none => rfl
    | some counter => simp only [marks_eq_stamp large]

theorem Block.address_ne_zero {cluster clusters : Nat} (lower : 1 ≤ cluster) :
    Block.address start ⟨cluster, clusters⟩ ≠ 0 := by
  unfold Block.address
  simp only
  omega

/-- `t_malloc` fails exactly when the size is too large or no run is free. -/
theorem tMalloc_cases (arena : start + arenaSize ≤ 2 ^ 32) (memory : Memory) (size : Nat) :
    tMalloc start memory size = (0, memory) ∧
        ¬(size ≤ largestRequest ∧ SomeRunFree start memory (clustersFor size)) ∨
      size ≤ largestRequest ∧ ∃ cluster,
        firstFree start memory (clustersFor size) = some cluster ∧
        tMalloc start memory size =
          (Block.address start ⟨cluster, clustersFor size⟩,
            stamp start memory ⟨cluster, clustersFor size⟩) := by
  by_cases served : size ≤ largestRequest
  · cases search : firstFree start memory (clustersFor size) with
    | none =>
        left
        refine ⟨by rw [tMalloc_eq served, search], ?_⟩
        rintro ⟨-, cluster, lower, upper, free⟩
        exact firstFree_eq_none.mp search cluster lower upper free
    | some cluster =>
        right
        obtain ⟨-, -, upper, -⟩ := firstFree_eq_some.mp search
        unfold arenaSize at arena
        refine ⟨served, cluster, rfl, ?_⟩
        rw [tMalloc_eq served, search]
        exact congrArg (·, _) (Nat.mod_eq_of_lt (by omega))
  · left
    exact ⟨tMalloc_oversized (by omega), fun both => served both.1⟩

end Cromwell.Heap
