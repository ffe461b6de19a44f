import Cromwell.Heap.Release
import Cromwell.Std.Execution

/-!
# Runs of the memory manager

The manager keeps no list of the blocks it has handed out. `HeapState` adds one:
`live` holds the blocks that were returned and not yet freed, and is what the
ownership results speak about. A run starts at `memoryManagementInitialization`;
it may free any address of the arena, whether `t_malloc` returned it or not.
-/

namespace Cromwell.Heap

open Cromwell.Std

/-- One call of the allocator. -/
inductive HeapCall where
  | tMalloc (size : Nat)
  | tFree (ptr : Nat)

/-- The memory, and the blocks its clients hold. -/
structure HeapState where
  memory : Memory
  live : List Block

/-- The effect of a call on the memory and on the blocks held. -/
def HeapState.after (start : Nat) (state : HeapState) : HeapCall → HeapState
  | .tMalloc size =>
      let (ptr, memory) := tMalloc start state.memory size
      { memory
        live := if ptr = 0 then state.live
          else ⟨(ptr - start) / 0x4000, clustersFor size⟩ :: state.live }
  | .tFree ptr =>
      { memory := tFree start state.memory ptr
        live := state.live.filter fun block => block.address start ≠ ptr }

/-- Sizes are 32-bit words; freed addresses lie in the arena. -/
def HeapCall.Valid (start : Nat) : HeapCall → Prop
  | .tMalloc size => size < 2 ^ 32
  | .tFree ptr => start ≤ ptr ∧ ptr < start + arenaSize

/-- The memory manager over an arena, from its initialization on. -/
def heapSystem (start : Nat) : LabelledSystem HeapCall :=
  (LabelledSystem.ofFunction
    (fun state : HeapState =>
      ∃ memory, state = ⟨memoryManagementInitialization start memory, []⟩)
    (HeapState.after start)).restrict fun _ call => call.Valid start

/-- The heap of Cromwell after its initialization, over zeros. -/
def emptyHeap : HeapState :=
  ⟨memoryManagementInitialization memoryManagerStart fun _ => 0, []⟩

variable {start : Nat}

/-- A valid call extends a run. -/
theorem reachable_after {state : HeapState} (reachable : (heapSystem start).Reachable state)
    (call : HeapCall) (valid : call.Valid start) :
    (heapSystem start).Reachable (state.after start call) := by
  obtain ⟨calls, runs⟩ := reachable
  exact ⟨_, .step runs ⟨valid, rfl⟩⟩

/-- A valid call that meets a condition extends a run of calls that do. -/
theorem runs_after {allowed : HeapState → HeapCall → Prop} {calls : List HeapCall}
    {state : HeapState} (runs : ((heapSystem start).restrict allowed).Runs calls state)
    (call : HeapCall) (met : allowed state call) (valid : call.Valid start) :
    ((heapSystem start).restrict allowed).Runs (calls ++ [call]) (state.after start call) :=
  runs.step ⟨met, valid, rfl⟩

/-- What a `t_malloc` call can do: nothing, or hand out the first free run. -/
theorem after_tMalloc_cases (arena : start + arenaSize ≤ 2 ^ 32) (state : HeapState)
    (size : Nat) :
    state.after start (.tMalloc size) = state ∧
        ¬(size ≤ largestRequest ∧ SomeRunFree start state.memory (clustersFor size)) ∨
      size ≤ largestRequest ∧ ∃ cluster,
        firstFree start state.memory (clustersFor size) = some cluster ∧
        state.after start (.tMalloc size) =
          ⟨stamp start state.memory ⟨cluster, clustersFor size⟩,
            ⟨cluster, clustersFor size⟩ :: state.live⟩ := by
  rcases tMalloc_cases arena state.memory size with
    ⟨failed, noRun⟩ | ⟨served, cluster, search, result⟩
  · exact .inl ⟨by simp [HeapState.after, failed], noRun⟩
  · right
    obtain ⟨-, lower, -, -⟩ := firstFree_eq_some.mp search
    have index : (Block.address start ⟨cluster, clustersFor size⟩ - start) / 0x4000 = cluster := by
      simp only [Block.address]
      omega
    refine ⟨served, cluster, search, ?_⟩
    simp only [HeapState.after, result, if_neg (Block.address_ne_zero lower), index]

/-! ## Filling an empty arena -/

/-- The entries below the frontier are taken and those from it on are free. -/
def FilledTo (start : Nat) (memory : Memory) (frontier : Nat) : Prop :=
  (∀ k, 1 ≤ k → k < frontier → memory (start + k) ≠ 0) ∧
    ∀ k, frontier ≤ k → k < 0x4000 → memory (start + k) = 0

theorem filledTo_initialization (memory : Memory) :
    FilledTo start (memoryManagementInitialization start memory) 1 := by
  constructor
  · intro k lower upper
    omega
  · intro k lower upper
    rw [memoryManagementInitialization, Memory.set_other _ (by omega),
      Memory.memset_inside _ (by omega) (by omega)]

theorem filledTo_emptyHeap : FilledTo memoryManagerStart emptyHeap.memory 1 :=
  filledTo_initialization _

/-- In a filled arena the first free run begins at the frontier. -/
theorem FilledTo.firstFree {memory : Memory} {frontier clusters : Nat}
    (filled : FilledTo start memory frontier) (lower : 1 ≤ frontier) (upper : frontier < 0x400)
    (positive : 0 < clusters) (bounded : clusters ≤ 321) :
    firstFree start memory clusters = some frontier := by
  rw [firstFree_eq_some]
  refine ⟨fun k bound => filled.2 _ (by omega) (by omega), lower, upper, ?_⟩
  intro other first earlier free
  exact filled.1 other first earlier (free 0 positive)

theorem FilledTo.stamp {memory : Memory} {frontier clusters : Nat}
    (filled : FilledTo start memory frontier)
    (sized : Block.Sized ⟨frontier, clusters⟩) :
    FilledTo start (stamp start memory ⟨frontier, clusters⟩) (frontier + clusters) := by
  constructor
  · intro k first below
    by_cases inside : frontier ≤ k
    · obtain ⟨j, rfl⟩ : ∃ j, k = frontier + j := ⟨k - frontier, by omega⟩
      have tag : Heap.stamp start memory ⟨frontier, clusters⟩ (start + (frontier + j)) =
          tagByte clusters j := stamp_inside ⟨frontier, clusters⟩ (by simp only; omega)
      rw [tag]
      exact tagByte_ne_zero (by omega) sized
    · rw [stamp_outside _ (by simp only; omega)]
      exact filled.1 k first (by omega)
  · intro k beyond inTable
    rw [stamp_outside _ (by simp only [Block.stop]; omega)]
    exact filled.2 k (by omega) inTable

/-- Allocating in a filled arena moves the frontier. -/
theorem FilledTo.tMalloc {state : HeapState} {frontier : Nat}
    (arena : start + arenaSize ≤ 2 ^ 32) (filled : FilledTo start state.memory frontier)
    (lower : 1 ≤ frontier) (upper : frontier < 0x400) (size : Nat)
    (served : size ≤ largestRequest) :
    state.after start (.tMalloc size) =
        ⟨Heap.stamp start state.memory ⟨frontier, clustersFor size⟩,
          ⟨frontier, clustersFor size⟩ :: state.live⟩ ∧
      FilledTo start (state.after start (.tMalloc size)).memory
        (frontier + clustersFor size) := by
  have search := filled.firstFree lower upper (clustersFor_pos size) (clustersFor_le served)
  rcases after_tMalloc_cases arena state size with ⟨-, noRun⟩ | ⟨-, cluster, found, result⟩
  · exact absurd ⟨served, frontier, lower, upper, (firstFree_eq_some.mp search).1⟩ noRun
  · obtain rfl : frontier = cluster := by simpa using search.symm.trans found
    rw [result]
    exact ⟨rfl, filled.stamp (Block.sized_clustersFor _ _)⟩

/-- Three blocks of the largest size fill the clusters below 964. -/
theorem exists_reachable_filled (arena : start + arenaSize ≤ 2 ^ 32) :
    ∃ state, (heapSystem start).Reachable state ∧ FilledTo start state.memory 964 := by
  have grow : ∀ {state frontier}, (heapSystem start).Reachable state →
      FilledTo start state.memory frontier → 1 ≤ frontier → frontier < 0x400 →
      ∃ next, (heapSystem start).Reachable next ∧
        FilledTo start next.memory (frontier + 321) := by
    intro state frontier reachable filled lower upper
    have valid : HeapCall.Valid start (.tMalloc largestRequest) := by
      show largestRequest < 2 ^ 32
      decide
    exact ⟨_, reachable_after reachable _ valid,
      (filled.tMalloc arena lower upper largestRequest (Nat.le_refl _)).2⟩
  obtain ⟨first, reachable, filled⟩ :=
    grow ⟨[], .initial ⟨fun _ => 0, rfl⟩⟩ (filledTo_initialization _) (by omega) (by omega)
  obtain ⟨second, reachable, filled⟩ := grow reachable filled (by omega) (by omega)
  exact grow reachable filled (by omega) (by omega)

end Cromwell.Heap
