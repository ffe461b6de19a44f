import Cromwell.Heap.Containment

/-!
# Allocation followed by release

`t_free` undoes `t_malloc` for the single clusters, for the 64K blocks, and for
the large blocks of at least six clusters that end inside the table. The wrappers
`malloc` and `free` add a header in front of the pointer; they do not look at what
`t_malloc` returned, so a failed allocation comes back as a pointer as well.
-/

namespace Cromwell.Heap

open Cromwell.Std

/-- Freeing the returned pointer at once leaves everything as it was. -/
def Restored (start : Nat) (memory : Memory) (size : Nat) : Prop :=
  (tMalloc start memory size).1 ≠ 0 →
    tFree start (tMalloc start memory size).2 (tMalloc start memory size).1 = memory

/-- `t_free` gives back a run of this length in full: it is not of length five, and
when it is longer, a free one exists whose end marker the table loop reaches. -/
def Recoverable (start : Nat) (memory : Memory) (clusters : Nat) : Prop :=
  clusters ≠ 5 ∧ (5 < clusters →
    ∃ cluster, 1 ≤ cluster ∧ cluster + clusters ≤ 0x401 ∧ RunFree start memory cluster clusters)

variable {start : Nat} {memory : Memory} {size : Nat}

theorem Block.releasedStop_eq_stop_iff (block : Block) :
    block.releasedStop = block.stop ↔
      block.clusters ≠ 5 ∧ (5 < block.clusters → block.stop ≤ 0x401) := by
  unfold releasedStop stop
  split_ifs <;> omega

/-- The first free run is given back in full exactly when the length is recoverable. -/
theorem releasedStop_firstFree {clusters cluster : Nat}
    (search : firstFree start memory clusters = some cluster) :
    Block.releasedStop ⟨cluster, clusters⟩ = Block.stop ⟨cluster, clusters⟩ ↔
      Recoverable start memory clusters := by
  obtain ⟨free, lower, -, -⟩ := firstFree_eq_some.mp search
  rw [Block.releasedStop_eq_stop_iff]
  constructor
  · rintro ⟨notFive, short⟩
    exact ⟨notFive, fun large => ⟨cluster, lower, short large, free⟩⟩
  · rintro ⟨notFive, recoverable⟩
    refine ⟨notFive, fun large => ?_⟩
    simp only at large
    obtain ⟨candidate, first, fits, candidateFree⟩ := recoverable large
    obtain ⟨found, same, earlier⟩ := firstFree_le first (by omega) candidateFree
    obtain rfl : found = cluster := by simpa using same.symm.trans search
    simp only [Block.stop]
    omega

theorem stamp_tagged (block : Block) : Tagged start (stamp start memory block) block :=
  fun _ bound => stamp_inside block bound

/-- Releasing a block that was just stamped on a free run restores the memory
exactly when the whole block is given back. -/
theorem release_stamp_eq_iff {block : Block} (sized : block.Sized)
    (free : RunFree start memory block.cluster block.clusters) :
    release start (stamp start memory block) block = memory ↔
      block.releasedStop = block.stop := by
  have below := block.releasedStop_le
  constructor
  · intro same
    by_contra short
    -- The last entry of the block keeps its tag.
    obtain ⟨k, last⟩ : ∃ k, k + 1 = block.clusters :=
      ⟨block.clusters - 1, Nat.sub_add_cancel sized.pos⟩
    have entry := congrFun same (start + (block.cluster + k))
    have kept : ¬(start + block.cluster ≤ start + (block.cluster + k) ∧
        start + (block.cluster + k) < start + block.releasedStop) := by
      unfold Block.stop at below short
      omega
    rw [release, if_neg kept, stamp_inside _ (by omega), free k (by omega)] at entry
    exact tagByte_ne_zero (by omega) sized entry
  · intro whole
    funext x
    rw [release, whole]
    by_cases inside : start + block.cluster ≤ x ∧ x < start + block.stop
    · obtain ⟨k, rfl⟩ : ∃ k, x = start + (block.cluster + k) :=
        ⟨x - start - block.cluster, by omega⟩
      unfold Block.stop at inside
      rw [if_pos (by unfold Block.stop; omega), free k (by omega)]
    · rw [if_neg inside, stamp_outside _ (by omega)]

/-! ## t_malloc and t_free -/

/-- One allocation is undone exactly when the run handed out is recoverable. -/
theorem restored_iff (arena : start + arenaSize ≤ 2 ^ 32) (memory : Memory) (size : Nat) :
    Restored start memory size ↔
      (size ≤ largestRequest → SomeRunFree start memory (clustersFor size) →
        Recoverable start memory (clustersFor size)) := by
  rcases tMalloc_cases arena memory size with ⟨failed, noRun⟩ | ⟨served, cluster, search, result⟩
  · constructor
    · intro _ served someRun
      exact absurd ⟨served, someRun⟩ noRun
    · intro _ nonzero
      rw [failed] at nonzero
      exact absurd rfl nonzero
  · obtain ⟨free, lower, upper, -⟩ := firstFree_eq_some.mp search
    have sized := Block.sized_clustersFor cluster size
    have freed : tFree start (stamp start memory ⟨cluster, clustersFor size⟩)
        (Block.address start ⟨cluster, clustersFor size⟩) = _ :=
      tFree_tagged upper sized (stamp_tagged ⟨cluster, clustersFor size⟩)
    have whole := (release_stamp_eq_iff sized free).trans (releasedStop_firstFree search)
    rw [← whole, ← freed, Restored, result]
    constructor
    · intro restored _ _
      exact restored (Block.address_ne_zero lower)
    · intro restored _
      exact restored served ⟨cluster, lower, upper, free⟩

/-- Free undoes malloc: in every state of every run, allocating and freeing at once
restores the table exactly when the run handed out is recoverable. -/
theorem tFree_tMalloc_iff (arena : start + arenaSize ≤ 2 ^ 32) :
    ∀ state, (heapSystem start).Reachable state → ∀ size,
      Restored start state.memory size ↔
        (size ≤ largestRequest → SomeRunFree start state.memory (clustersFor size) →
          Recoverable start state.memory (clustersFor size)) :=
  fun state _ size => restored_iff arena state.memory size

/-- The first block of Cromwell's heap is given back in full. -/
theorem tFree_tMalloc_memoryManagerStart :
    Restored memoryManagerStart emptyHeap.memory 0x4000 := by
  have one : clustersFor 0x4000 = 1 := by decide
  refine (tFree_tMalloc_iff (by decide) emptyHeap ⟨[], .initial ⟨_, rfl⟩⟩ 0x4000).mpr fun _ _ => ?_
  rw [one]
  exact ⟨by decide, fun large => absurd large (by decide)⟩

/-- A block of five clusters is never recognised, not even in an empty arena. -/
theorem five_clusters_are_not_restored :
    ¬∀ state, (heapSystem memoryManagerStart).Reachable state → ∀ size, size < 2 ^ 32 →
      Restored memoryManagerStart state.memory size := by
  intro restored
  let memory := memoryManagementInitialization memoryManagerStart fun _ => 0
  have filled : FilledTo memoryManagerStart memory 1 := filledTo_initialization _
  have someRun : SomeRunFree memoryManagerStart memory (clustersFor 0x10001) :=
    ⟨1, by decide, by decide, fun k bound => filled.2 _ (by omega) (by
      have count : clustersFor 0x10001 = 5 := by decide
      omega)⟩
  have recoverable := (restored_iff (by decide) memory 0x10001).mp
    (restored ⟨memory, []⟩ ⟨[], .initial ⟨_, rfl⟩⟩ 0x10001 (by decide)) (by decide) someRun
  exact recoverable.1 (by decide)

/-! ## malloc and free -/

/-- The contract of `malloc`: it returns NULL, or a pointer into the run that its
`t_malloc` call allocated, with room for `size` bytes and with the header in front,
and freeing that pointer clears the table entries of the run and no others. -/
def MallocContract (start : Nat) (memory : Memory) (size : Nat) : Prop :=
  let ptr := (malloc start memory size).1
  let after := (malloc start memory size).2
  ptr = 0 ∨ ∃ block : Block,
    1 ≤ block.cluster ∧ block.clusters = clustersFor (paddedSize size) ∧
    (tMalloc start memory (paddedSize size)).1 = block.address start ∧
    block.address start + 8 ≤ ptr ∧
    ptr + size ≤ block.address start + block.clusters * 0x4000 ∧
    after.dword (ptr - 8) = block.address start ∧ after.dword (ptr - 4) = 0x1234567 ∧
    ∀ k, k < 0x4000 → free start after ptr (start + k) =
      if block.cluster ≤ k ∧ k < block.stop then 0 else after (start + k)

/-- The inner request is computed without overflow, can be served, and gets a run
that `t_free` gives back in full. -/
def MallocServed (start : Nat) (memory : Memory) (size : Nat) : Prop :=
  size + 0x200 < 2 ^ 32 ∧ paddedSize size ≤ largestRequest ∧
    SomeRunFree start memory (clustersFor (paddedSize size)) ∧
    Recoverable start memory (clustersFor (paddedSize size))

theorem paddedSize_eq (size : Nat) :
    paddedSize size = (size + 0x200) % 2 ^ 32 / 0x100 * 0x100 :=
  and_highMask 32 8 (by omega) (Nat.mod_lt _ (by decide))

/-- The pointer `malloc` computes from an aligned inner result. -/
theorem align_pointer {base : Nat} (bounded : base + 0x100 < 2 ^ 32)
    (aligned : base % 0x100 = 0) : (base + 0x100) % 2 ^ 32 &&& 0xffffff00 = base + 0x100 := by
  have masked : (base + 0x100) % 2 ^ 32 &&& 0xffffff00 = (base + 0x100) % 2 ^ 32 / 0x100 * 0x100 :=
    and_highMask 32 8 (by omega) (Nat.mod_lt _ (by decide))
  omega

/-- A failed inner allocation is returned as the address 0x100. -/
theorem malloc_failed (failed : (tMalloc start memory (paddedSize size)).1 = 0) :
    (malloc start memory size).1 = 0x100 := by
  simp only [malloc, failed]
  rfl

/-- The memory after a successful `malloc`: the tag in the table, the header in
front of the pointer. -/
def withHeader (start : Nat) (memory : Memory) (block : Block) : Memory :=
  ((stamp start memory block).store (block.address start + 0xf8)
    (dwordBytes (block.address start))).store (block.address start + 0xfc) (dwordBytes 0x1234567)

theorem malloc_succeeded {block : Block}
    (bounded : block.address start + 0x100 < 2 ^ 32) (aligned : start % 0x100 = 0)
    (result : tMalloc start memory (paddedSize size) =
      (block.address start, stamp start memory block)) :
    malloc start memory size = (block.address start + 0x100, withHeader start memory block) := by
  have multiple : block.address start % 0x100 = 0 := by
    unfold Block.address
    omega
  have header : (block.address start + 0x100 + 2 ^ 32 - 8) % 2 ^ 32 =
      block.address start + 0xf8 := by omega
  simp only [malloc, result, align_pointer bounded multiple, header]
  rfl

/-- The header lies in the clusters of the block, so the table does not see it. -/
theorem withHeader_table {block : Block} (lower : 1 ≤ block.cluster) {k : Nat}
    (inTable : k < 0x4000) :
    withHeader start memory block (start + k) = stamp start memory block (start + k) := by
  unfold withHeader Block.address
  rw [Memory.store_outside _ (by rw [length_dwordBytes]; omega),
    Memory.store_outside _ (by rw [length_dwordBytes]; omega)]

theorem withHeader_header (start : Nat) (memory : Memory) {block : Block}
    (bounded : block.address start < 2 ^ 32) :
    (withHeader start memory block).dword (block.address start + 0xf8) = block.address start ∧
      (withHeader start memory block).dword (block.address start + 0xfc) = 0x1234567 := by
  constructor
  · rw [withHeader, Memory.dword_store_other _ (by omega), Memory.dword_store _ _ bounded]
  · rw [withHeader, Memory.dword_store _ _ (by decide)]

/-- `free` on the pointer `malloc` returned releases the block it lies in. -/
theorem free_withHeader (start : Nat) (memory : Memory) {block : Block}
    (bounded : block.address start + 0x100 < 2 ^ 32)
    (lower : 1 ≤ block.cluster) (upper : block.cluster < 0x400) (sized : block.Sized)
    (short : block.clusters ≤ 321) :
    free start (withHeader start memory block) (block.address start + 0x100) =
      release start (withHeader start memory block) block := by
  have header : (block.address start + 0x100 + 2 ^ 32 - 8) % 2 ^ 32 =
      block.address start + 0xf8 := by omega
  obtain ⟨back, magic⟩ := withHeader_header start memory (by omega : block.address start < _)
  have tagged : Tagged start (withHeader start memory block) block := by
    intro k bound
    rw [withHeader_table lower (by omega)]
    exact stamp_inside block bound
  rw [free, if_neg (by omega)]
  simp only [header, back, magic, ne_eq, not_true_eq_false, if_false]
  exact tFree_tagged upper sized tagged

/-- After a successful inner allocation the contract holds exactly when the size did
not wrap around and the block is released whole. -/
theorem mallocContract_block {block : Block}
    (bounded : block.address start + 0x100 < 2 ^ 32) (aligned : start % 0x100 = 0)
    (small : size < 2 ^ 32) (lower : 1 ≤ block.cluster) (upper : block.cluster < 0x400)
    (served : paddedSize size ≤ largestRequest)
    (count : block.clusters = clustersFor (paddedSize size))
    (result : tMalloc start memory (paddedSize size) =
      (block.address start, stamp start memory block)) :
    MallocContract start memory size ↔
      size + 0x200 < 2 ^ 32 ∧ block.releasedStop = block.stop := by
  have sized : block.Sized := by
    unfold Block.Sized
    rw [count]
    exact clustersFor_class _
  have short : block.clusters ≤ 321 := by
    rw [count]
    exact clustersFor_le served
  have room := size_le_clustersFor (paddedSize size)
  have padded := paddedSize_eq size
  have below := block.releasedStop_le
  have freed := free_withHeader start memory bounded lower upper sized short
  have pointer : malloc start memory size =
      (block.address start + 0x100, withHeader start memory block) :=
    malloc_succeeded bounded aligned result
  unfold MallocContract
  simp only [pointer, result, freed]
  constructor
  · rintro (null | ⟨other, -, otherCount, same, -, fits, -, -, cleared⟩)
    · omega
    obtain rfl : other = block := by
      unfold Block.address at same
      exact Block.ext (by omega) (otherCount.trans count.symm)
    constructor
    · -- A wrapped size is served by one cluster, far too small for it.
      by_contra wrapped
      have tiny : paddedSize size ≤ 0x4000 := by omega
      have one : clustersFor (paddedSize size) = 1 := by simp [clustersFor, tiny]
      omega
    · -- An entry the table loop leaves behind keeps its tag.
      by_contra partly
      unfold Block.stop at below partly
      obtain ⟨k, last⟩ : ∃ k, k + 1 = other.clusters :=
        ⟨other.clusters - 1, Nat.sub_add_cancel sized.pos⟩
      have entry := cleared (other.cluster + k) (by omega)
      rw [release, if_neg (by omega), if_pos (by unfold Block.stop; omega),
        withHeader_table lower (by omega), stamp_inside _ (by omega)] at entry
      exact tagByte_ne_zero (by omega) sized entry
  · rintro ⟨noWrap, whole⟩
    obtain ⟨back, magic⟩ := withHeader_header start memory
      (by omega : block.address start < 2 ^ 32)
    refine .inr ⟨block, lower, count, rfl, by omega, by omega, ?_, ?_, ?_⟩
    · rw [show block.address start + 0x100 - 8 = block.address start + 0xf8 by omega]
      exact back
    · rw [show block.address start + 0x100 - 4 = block.address start + 0xfc by omega]
      exact magic
    · intro k _
      rw [release, whole]
      simp only [Nat.add_le_add_iff_left, Nat.add_lt_add_iff_left]

/-- The malloc contract holds exactly when the inner request does not overflow, can be
served and gets a run that `t_free` gives back in full. -/
theorem malloc_contract_iff :
    ∀ memory size, size < 2 ^ 32 →
      (MallocContract memoryManagerStart memory size ↔
        MallocServed memoryManagerStart memory size) := by
  intro memory size small
  have arena : memoryManagerStart + arenaSize ≤ 2 ^ 32 := by decide
  rcases tMalloc_cases arena memory (paddedSize size) with
    ⟨failed, noRun⟩ | ⟨served, cluster, search, result⟩
  · constructor
    · have pointer := malloc_failed (congrArg Prod.fst failed)
      rintro (null | ⟨block, lower, -, same, -⟩)
      · rw [pointer] at null
        omega
      · rw [failed] at same
        exact absurd same.symm (Block.address_ne_zero lower)
    · rintro ⟨-, served, someRun, -⟩
      exact absurd ⟨served, someRun⟩ noRun
  · obtain ⟨free, lower, upper, -⟩ := firstFree_eq_some.mp search
    have bounded : Block.address memoryManagerStart
        ⟨cluster, clustersFor (paddedSize size)⟩ + 0x100 < 2 ^ 32 := by
      simp only [Block.address, memoryManagerStart]
      omega
    rw [mallocContract_block bounded (by decide) small lower upper served rfl result,
      releasedStop_firstFree search]
    constructor
    · rintro ⟨noWrap, recoverable⟩
      exact ⟨noWrap, served, ⟨cluster, lower, upper, free⟩, recoverable⟩
    · rintro ⟨noWrap, -, -, recoverable⟩
      exact ⟨noWrap, recoverable⟩

theorem malloc_contract_five_mebibytes :
    MallocContract memoryManagerStart
        (memoryManagementInitialization memoryManagerStart fun _ => 0) 0x500000 ↔
      MallocServed memoryManagerStart
        (memoryManagementInitialization memoryManagerStart fun _ => 0) 0x500000 :=
  malloc_contract_iff _ _ (by decide)

/-- An oversized request in an empty arena comes back as the pointer 0x100. -/
theorem oversized_malloc_is_not_null :
    ¬∀ state, (heapSystem memoryManagerStart).Reachable state → ∀ size, size < 2 ^ 32 →
      MallocContract memoryManagerStart state.memory size := by
  intro contract
  let memory := memoryManagementInitialization memoryManagerStart fun _ => 0
  have failed : tMalloc memoryManagerStart memory (paddedSize 0x500000) = (0, memory) :=
    tMalloc_oversized (by decide)
  have pointer := malloc_failed (congrArg Prod.fst failed)
  rcases contract ⟨memory, []⟩ ⟨[], .initial ⟨_, rfl⟩⟩ 0x500000 (by decide) with
    null | ⟨block, lower, -, same, -⟩
  · rw [pointer] at null
    omega
  · rw [failed] at same
    exact absurd same.symm (Block.address_ne_zero lower)

end Cromwell.Heap
