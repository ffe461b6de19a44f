import Cromwell.Heap.History

/-!
# Which blocks stay inside the arena

The 64K and the large search probe the table behind the entry they start from,
and the table holds zeros behind entry `0x3ff`. When no run of the needed length
ends inside the arena, the search therefore accepts one that runs out of it, into
the memory where Cromwell itself was loaded. Single clusters are not affected.
-/

namespace Cromwell.Heap

open Cromwell.Std

/-- A block `t_malloc` returns has all its clusters in `[1, 0x3ff]`. -/
def Contained (start : Nat) (memory : Memory) (size : Nat) : Prop :=
  (tMalloc start memory size).1 ≠ 0 →
    ∃ cluster, (tMalloc start memory size).1 = start + cluster * 0x4000 ∧
      1 ≤ cluster ∧ cluster + clustersFor size ≤ 0x400

/-- If any free run of the needed length begins in the table, then one of them
also ends there. -/
def RoomInside (start : Nat) (memory : Memory) (size : Nat) : Prop :=
  size ≤ largestRequest →
    SomeRunFree start memory (clustersFor size) →
    ∃ cluster, 1 ≤ cluster ∧ cluster + clustersFor size ≤ 0x400 ∧
      RunFree start memory cluster (clustersFor size)

/-- `RoomInside` for the calls that allocate. -/
def RoomFor (start : Nat) (state : HeapState) : HeapCall → Prop
  | .tMalloc size => RoomInside start state.memory size
  | .tFree _ => True

variable {start : Nat}

/-- The first free run ends inside the table as soon as some free run does. -/
theorem firstFree_inside {memory : Memory} {clusters cluster : Nat} (positive : 0 < clusters)
    (search : firstFree start memory clusters = some cluster)
    (room : ∃ candidate, 1 ≤ candidate ∧ candidate + clusters ≤ 0x400 ∧
      RunFree start memory candidate clusters) :
    1 ≤ cluster ∧ cluster + clusters ≤ 0x400 := by
  obtain ⟨candidate, lower, upper, free⟩ := room
  obtain ⟨found, first, earlier⟩ := firstFree_le lower (by omega) free
  obtain rfl : found = cluster := by simpa using first.symm.trans search
  exact ⟨(firstFree_eq_some.mp search).2.1, by omega⟩

/-- One allocation is contained exactly when there is room inside. -/
theorem contained_iff_roomInside (arena : start + arenaSize ≤ 2 ^ 32) (memory : Memory)
    (size : Nat) : Contained start memory size ↔ RoomInside start memory size := by
  rcases tMalloc_cases arena memory size with ⟨failed, noRun⟩ | ⟨served, cluster, search, result⟩
  · constructor
    · intro _ served someRun
      exact absurd ⟨served, someRun⟩ noRun
    · intro _ nonzero
      rw [failed] at nonzero
      exact absurd rfl nonzero
  · obtain ⟨free, lower, upper, -⟩ := firstFree_eq_some.mp search
    rw [Contained, result]
    constructor
    · intro contained _ _
      obtain ⟨other, same, first, fits⟩ := contained (Block.address_ne_zero lower)
      simp only [Block.address] at same
      obtain rfl : cluster = other := by omega
      exact ⟨cluster, first, fits, free⟩
    · intro room _
      exact ⟨cluster, rfl, firstFree_inside (clustersFor_pos size) search
        (room served ⟨cluster, lower, upper, free⟩)⟩

/-- The blocks held along a run in which every allocation has room inside. -/
def containedInvariant (arena : start + arenaSize ≤ 2 ^ 32) :
    ((heapSystem start).restrict (RoomFor start)).Invariant where
  Inv state := ∀ block ∈ state.live, 1 ≤ block.cluster ∧ block.stop ≤ 0x400
  initial := by
    rintro state ⟨memory, rfl⟩
    simp
  preserved := by
    rintro state call next held ⟨room, -, rfl⟩
    cases call with
    | tMalloc size =>
        rcases after_tMalloc_cases arena state size with
          ⟨same, -⟩ | ⟨served, cluster, search, result⟩
        · rw [same]
          exact held
        · rw [result]
          intro block member
          rcases List.mem_cons.mp member with rfl | older
          · have free := firstFree_eq_some.mp search
            exact firstFree_inside (clustersFor_pos size) search
              (room served ⟨cluster, free.2.1, free.2.2.1, free.1⟩)
          · exact held block older
    | tFree ptr =>
        intro block member
        exact held block (List.mem_of_mem_filter member)

/-- Heap containment: an allocation stays inside the arena exactly when there is
room inside, and in a run whose allocations all have room no block the clients
hold reaches the Cromwell image. -/
theorem tMalloc_contained_iff (arena : start + arenaSize ≤ 2 ^ 32) :
    (∀ memory size, Contained start memory size ↔ RoomInside start memory size) ∧
      ∀ calls state, ((heapSystem start).restrict (RoomFor start)).Runs calls state →
        ∀ block ∈ state.live, 1 ≤ block.cluster ∧ block.stop ≤ 0x400 ∧
          (start = memoryManagerStart →
            block.address start + block.clusters * 0x4000 ≤ cromwellImageStart) := by
  refine ⟨contained_iff_roomInside arena, ?_⟩
  intro calls state runs block member
  obtain ⟨lower, upper⟩ := (containedInvariant arena).of_runs runs block member
  refine ⟨lower, upper, ?_⟩
  rintro rfl
  simp only [Block.stop, Block.address, memoryManagerStart, cromwellImageStart] at upper ⊢
  omega

/-- The first block of Cromwell's heap is inside the arena and below its image. -/
theorem tMalloc_contained_memoryManagerStart :
    Contained memoryManagerStart emptyHeap.memory 0x4000 ∧
      Block.address memoryManagerStart ⟨1, 1⟩ + 1 * 0x4000 ≤ cromwellImageStart := by
  have arena : memoryManagerStart + arenaSize ≤ 2 ^ 32 := by decide
  have room : RoomInside memoryManagerStart emptyHeap.memory 0x4000 := fun _ _ =>
    ⟨1, by decide, by decide, fun k bound => filledTo_emptyHeap.2 _ (by omega) (by
      have one : clustersFor 0x4000 = 1 := by decide
      omega)⟩
  have held : Block.mk 1 1 ∈ (emptyHeap.after memoryManagerStart (.tMalloc 0x4000)).live := by
    rw [(filledTo_emptyHeap.tMalloc arena (by decide) (by decide) 0x4000 (by decide)).1]
    exact List.mem_cons_self
  have valid : HeapCall.Valid memoryManagerStart (.tMalloc 0x4000) :=
    (by decide : 0x4000 < 2 ^ 32)
  obtain ⟨exactly, below⟩ := tMalloc_contained_iff arena
  have met : RoomFor memoryManagerStart emptyHeap (.tMalloc 0x4000) := room
  have fresh : ((heapSystem memoryManagerStart).restrict (RoomFor memoryManagerStart)).Runs []
      emptyHeap := .initial ⟨_, rfl⟩
  have runs := runs_after fresh _ met valid
  exact ⟨(exactly _ _).mpr room, (below _ _ runs _ held).2.2 rfl⟩

/-- Three blocks of 5 MiB leave sixty clusters; the fourth one does not fit and is
handed out all the same. -/
theorem fourth_large_block_leaves_the_arena :
    ¬∀ state, (heapSystem memoryManagerStart).Reachable state →
      ∀ size, size < 2 ^ 32 → Contained memoryManagerStart state.memory size := by
  intro contained
  have arena : memoryManagerStart + arenaSize ≤ 2 ^ 32 := by decide
  have count : clustersFor 0x500000 = 321 := by decide
  obtain ⟨state, reachable, filled⟩ := exists_reachable_filled arena
  have room := (contained_iff_roomInside arena _ _).mp
    (contained state reachable 0x500000 (by decide)) (by decide)
  rw [count] at room
  obtain ⟨cluster, lower, upper, free⟩ := room
    ⟨964, by decide, by decide, fun k bound => filled.2 _ (by omega) (by omega)⟩
  exact filled.1 cluster lower (by omega) (free 0 (by omega))

end Cromwell.Heap
