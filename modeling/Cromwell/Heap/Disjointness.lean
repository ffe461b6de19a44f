import Cromwell.Heap.Ownership

/-!
# Heap disjointness

The ownership invariant survives every call of `t_malloc` and `t_free`, provided no
large block is placed in the last cluster. While it holds, the blocks held by the
clients are disjoint and a call of `t_free` with any address of the arena touches
no block but the one that begins there. A large block placed in the last cluster
breaks this.
-/

namespace Cromwell.Heap

open Cromwell.Std

variable {start : Nat} {memory : Memory} {marks : Set Mark}

/-! ## Preservation of ownership -/

theorem owned_initialization (memory : Memory) :
    Owned start (memoryManagementInitialization start memory) ∅ where
  wellFormed := by simp
  tags := by simp
  apart := by simp
  reserved := by simp [memoryManagementInitialization]
  covered := by
    intro entry lower inTable nonzero
    exact absurd ((filledTo_initialization memory).2 entry lower inTable) nonzero

/-- A free run meets no mark. -/
theorem Owned.apart_of_runFree (owned : Owned start memory marks) {block : Block}
    (sized : block.Sized) (free : RunFree start memory block.cluster block.clusters) {mark : Mark}
    (member : mark ∈ marks) : block.mark.Apart mark := by
  by_contra overlap
  simp only [Mark.Apart, Block.mark, not_or, Nat.not_le] at overlap
  have nonempty := (owned.wellFormed mark member).nonempty
  obtain ⟨entry, covers, lower, upper⟩ : ∃ entry, mark.Covers entry ∧
      block.cluster ≤ entry ∧ entry < block.stop := by
    by_cases first : block.cluster ≤ mark.first
    · exact ⟨mark.first, ⟨Nat.le_refl _, nonempty⟩, first, overlap.1⟩
    · have positive := sized.pos
      exact ⟨block.cluster, ⟨by omega, overlap.2⟩, Nat.le_refl _, by unfold Block.stop; omega⟩
  obtain ⟨k, -, bound, tag⟩ := owned.tag_of_covers member covers
  unfold Block.stop at upper
  have zero := free (entry - block.cluster) (by omega)
  rw [show block.cluster + (entry - block.cluster) = entry by omega, tag] at zero
  exact tagByte_ne_zero bound (owned.wellFormed mark member).sized zero

/-- Marking a free run adds its mark. -/
theorem Owned.stamp (owned : Owned start memory marks) {block : Block}
    (free : RunFree start memory block.cluster block.clusters)
    (lower : 1 ≤ block.cluster) (upper : block.cluster < 0x400) (sized : block.Sized)
    (belowLast : 6 ≤ block.clusters → block.cluster ≠ 0x3ff) :
    Owned start (stamp start memory block) (insert block.mark marks) where
  wellFormed := by
    rintro mark (rfl | older)
    · exact {
        lower, upper, sized, belowLast
        nonempty := by
          have positive := sized.pos
          simp only [Block.mark, Block.stop]
          omega
        extent := .inl rfl }
    · exact owned.wellFormed mark older
  tags := by
    rintro mark (rfl | older) k first bound
    · exact stamp_inside block bound
    · have separate := owned.apart_of_runFree sized free older
      simp only [Mark.Apart, Block.mark] at separate
      rw [stamp_outside _ (by unfold Block.stop at separate ⊢; omega)]
      exact owned.tags mark older k first bound
  apart := by
    rintro left (rfl | older) right (rfl | other) distinct
    · exact absurd rfl distinct
    · exact owned.apart_of_runFree sized free other
    · exact (owned.apart_of_runFree sized free older).symm
    · exact owned.apart left older right other distinct
  reserved := by
    rw [stamp_outside _ (by omega)]
    exact owned.reserved
  covered := by
    intro entry first inTable nonzero
    by_cases inside : block.cluster ≤ entry ∧ entry < block.stop
    · exact ⟨block.mark, .inl rfl, inside⟩
    · rw [stamp_outside _ (by omega)] at nonzero
      obtain ⟨mark, member, covers⟩ := owned.covered entry first inTable nonzero
      exact ⟨mark, .inr member, covers⟩

/-- What is left of a block that `t_free` has released. -/
def Block.remainder (block : Block) : Set Mark :=
  {mark | mark = ⟨block, block.releasedStop⟩ ∧ block.releasedStop < block.stop}

/-- The remainder of a well-formed block is well formed. -/
theorem Block.remainder_wellFormed {block : Block} (formed : block.mark.WellFormed)
    (short : block.releasedStop < block.stop) :
    Mark.WellFormed ⟨block, block.releasedStop⟩ where
  lower := formed.lower
  upper := formed.upper
  sized := formed.sized
  nonempty := short
  belowLast := formed.belowLast
  extent := by
    unfold Block.releasedStop at short ⊢
    split_ifs at short ⊢ with five large
    · exact .inl rfl
    · exact .inr ⟨rfl, large.1⟩
    · omega

/-- Releasing a marked block leaves at most its remainder. -/
theorem Owned.release (owned : Owned start memory marks) {block : Block}
    (member : block.mark ∈ marks) :
    Owned start (release start memory block) (marks \ {block.mark} ∪ block.remainder) := by
  have formed := owned.wellFormed _ member
  have below := block.releasedStop_le
  have above : block.cluster ≤ block.releasedStop := by
    have inTable := formed.upper
    unfold Block.releasedStop Block.stop
    simp only [Block.mark] at inTable
    split_ifs <;> omega
  have others : ∀ mark ∈ marks, mark ≠ block.mark →
      block.stop ≤ mark.first ∨ mark.block.stop ≤ block.cluster := by
    intro mark other distinct
    exact owned.apart block.mark member mark other distinct.symm
  refine {
    wellFormed := ?_
    tags := ?_
    apart := ?_
    reserved := ?_
    covered := ?_ }
  · rintro mark (⟨older, -⟩ | ⟨rfl, short⟩)
    · exact owned.wellFormed mark older
    · exact Block.remainder_wellFormed formed short
  · rintro mark (⟨older, distinct⟩ | ⟨rfl, short⟩) k first bound
    · have separate := others mark older distinct
      unfold Block.stop at separate below
      rw [Heap.release, if_neg (by omega)]
      exact owned.tags mark older k first bound
    · simp only at first bound
      rw [Heap.release, if_neg (by simp only; omega)]
      exact owned.tags block.mark member k (Nat.le_add_right _ _) bound
  · rintro left (⟨older, leftOther⟩ | ⟨rfl, -⟩) right (⟨other, rightOther⟩ | ⟨rfl, -⟩) distinct
    · exact owned.apart left older right other distinct
    · have separate := others left older leftOther
      simp only [Mark.Apart]
      omega
    · have separate := others right other rightOther
      simp only [Mark.Apart]
      omega
    · exact absurd rfl distinct
  · have first : 1 ≤ block.cluster := formed.lower
    rw [Heap.release, if_neg (by omega)]
    exact owned.reserved
  · intro entry first inTable nonzero
    rw [Heap.release] at nonzero
    split_ifs at nonzero with cleared
    · exact absurd rfl nonzero
    obtain ⟨mark, older, covers⟩ := owned.covered entry first inTable nonzero
    by_cases same : mark = block.mark
    · subst same
      obtain ⟨lower, upper⟩ := covers
      simp only [Block.mark] at lower upper
      exact ⟨_, .inr ⟨rfl, by omega⟩, by simp only; omega, upper⟩
    · exact ⟨mark, .inl ⟨older, same⟩, covers⟩

/-! ## The invariant of the allocator -/

/-- The blocks the clients hold are marked in full and share no cluster. -/
def HeapInvariant (start : Nat) (state : HeapState) : Prop :=
  state.live.Pairwise Block.Disjoint ∧ ∃ marks, Owned start state.memory marks ∧
    ∀ block ∈ state.live, block.mark ∈ marks

/-- No large block is placed in the last cluster: when the run behind it is free, an
earlier run is free as well. -/
def LargeBeforeLast (start : Nat) (state : HeapState) : HeapCall → Prop
  | .tMalloc size => size ≤ largestRequest → 6 ≤ clustersFor size →
      RunFree start state.memory 0x3ff (clustersFor size) →
      ∃ cluster, 1 ≤ cluster ∧ cluster < 0x3ff ∧
        RunFree start state.memory cluster (clustersFor size)
  | .tFree _ => True

/-- The heap is safe in a state: the blocks held are disjoint, none contains the table,
and no call of `t_free` touches a block that does not begin at its argument. -/
structure HeapSafe (start : Nat) (state : HeapState) : Prop where
  disjoint : state.live.Pairwise Block.Disjoint
  offTable : ∀ block ∈ state.live, 1 ≤ block.cluster
  untouched : ∀ ptr, start ≤ ptr → ptr < start + arenaSize →
    ∀ block ∈ state.live, block.address start ≠ ptr → ∀ k, k < block.clusters →
      tFree start state.memory ptr (start + (block.cluster + k)) =
        state.memory (start + (block.cluster + k))

/-- Blocks with distinct marks share no cluster. -/
theorem Owned.disjoint (owned : Owned start memory marks) {left right : Block}
    (leftMember : left.mark ∈ marks) (rightMember : right.mark ∈ marks)
    (distinct : left.mark ≠ right.mark) : left.Disjoint right :=
  owned.apart _ leftMember _ rightMember distinct

theorem mark_ne_of_address_ne {left right : Block}
    (different : left.address start ≠ right.address start) : left.mark ≠ right.mark := by
  intro same
  apply different
  rw [show left = right from congrArg Mark.block same]

theorem HeapInvariant.safe {state : HeapState} (invariant : HeapInvariant start state) :
    HeapSafe start state := by
  obtain ⟨disjoint, marks, owned, marked⟩ := invariant
  refine ⟨disjoint, fun block member => (owned.wellFormed _ (marked block member)).lower, ?_⟩
  intro ptr lower upper block member elsewhere k bound
  rcases owned.tFree_cases lower upper with same | ⟨freed, freedMember, rfl, result⟩
  · rw [same]
  · have separate := owned.disjoint (marked block member) freedMember
      (mark_ne_of_address_ne elsewhere)
    have below := freed.releasedStop_le
    unfold Block.Disjoint Block.stop at separate
    unfold Block.stop at below
    rw [result, release, if_neg (by omega)]

/-- Every call that keeps large blocks out of the last cluster keeps the invariant. -/
def ownershipInvariant (arena : start + arenaSize ≤ 2 ^ 32) :
    ((heapSystem start).restrict (LargeBeforeLast start)).Invariant where
  Inv := HeapInvariant start
  initial := by
    rintro state ⟨memory, rfl⟩
    exact ⟨.nil, ∅, owned_initialization memory, by simp⟩
  preserved := by
    rintro state call next ⟨disjoint, marks, owned, marked⟩ ⟨allowed, valid, rfl⟩
    cases call with
    | tMalloc size =>
        rcases after_tMalloc_cases arena state size with
          ⟨same, -⟩ | ⟨served, cluster, search, result⟩
        · rw [same]
          exact ⟨disjoint, marks, owned, marked⟩
        obtain ⟨free, lower, upper, earliest⟩ := firstFree_eq_some.mp search
        have belowLast : 6 ≤ clustersFor size → cluster ≠ 0x3ff := by
          rintro large rfl
          obtain ⟨other, first, earlier, otherFree⟩ := allowed served large free
          exact earliest other first earlier otherFree
        rw [result]
        refine ⟨?_, insert (Block.mark ⟨cluster, clustersFor size⟩) marks,
          owned.stamp free lower upper (Block.sized_clustersFor _ _) belowLast, ?_⟩
        · refine List.pairwise_cons.mpr ⟨fun block member => ?_, disjoint⟩
          exact owned.apart_of_runFree (Block.sized_clustersFor cluster size) free
            (marked block member)
        · intro block member
          rcases List.mem_cons.mp member with rfl | older
          · exact .inl rfl
          · exact .inr (marked block older)
    | tFree ptr =>
        refine ⟨disjoint.filter _, ?_⟩
        have kept : ∀ block ∈ state.live.filter fun block => block.address start ≠ ptr,
            block.mark ∈ marks ∧ block.address start ≠ ptr := by
          intro block member
          rw [List.mem_filter] at member
          exact ⟨marked block member.1, by simpa using member.2⟩
        rcases owned.tFree_cases valid.1 valid.2 with same | ⟨freed, freedMember, rfl, result⟩
        · refine ⟨marks, ?_, fun block member => (kept block member).1⟩
          simp only [HeapState.after, same]
          exact owned
        · refine ⟨marks \ {freed.mark} ∪ freed.remainder, ?_, ?_⟩
          · simp only [HeapState.after, result]
            exact owned.release freedMember
          · intro block member
            obtain ⟨older, elsewhere⟩ := kept block member
            exact .inl ⟨older, mark_ne_of_address_ne elsewhere⟩

/-- Heap disjointness: in every state of every run that places no large block in the
last cluster, the blocks held are disjoint, none contains the table, and no call of
`t_free`, whatever address it gets, touches a block that does not begin there. -/
theorem heap_safe_of_largeBeforeLast (arena : start + arenaSize ≤ 2 ^ 32) :
    ∀ calls state, ((heapSystem start).restrict (LargeBeforeLast start)).Runs calls state →
      HeapSafe start state :=
  fun _ _ runs => ((ownershipInvariant arena).of_runs runs).safe

/-- The heap of Cromwell with a block of one cluster, a large one and one of four. -/
def threeBlocks : HeapState :=
  ((emptyHeap.after memoryManagerStart (.tMalloc 0x4000)).after memoryManagerStart
    (.tMalloc 0x20000)).after memoryManagerStart (.tMalloc 0x8000)

/-- It stays safe when the first block is freed, and an address inside the large one. -/
theorem heap_safe_memoryManagerStart :
    threeBlocks.live = [⟨11, 4⟩, ⟨2, 9⟩, ⟨1, 1⟩] ∧
      HeapSafe memoryManagerStart
        ((threeBlocks.after memoryManagerStart (.tFree (memoryManagerStart + 0x4000))).after
          memoryManagerStart (.tFree (memoryManagerStart + 5 * 0x4000))) := by
  have arena : memoryManagerStart + arenaSize ≤ 2 ^ 32 := by decide
  have countOne : clustersFor 0x4000 = 1 := by decide
  have countLarge : clustersFor 0x20000 = 9 := by decide
  have countFour : clustersFor 0x8000 = 4 := by decide
  obtain ⟨one, filledOne⟩ :=
    filledTo_emptyHeap.tMalloc arena (by decide) (by decide) 0x4000 (by decide)
  rw [countOne] at one filledOne
  obtain ⟨large, filledLarge⟩ :=
    filledOne.tMalloc arena (by decide) (by decide) 0x20000 (by decide)
  rw [countLarge] at large filledLarge
  obtain ⟨four, -⟩ := filledLarge.tMalloc arena (by decide) (by decide) 0x8000 (by decide)
  rw [countFour] at four
  have held : threeBlocks.live = [⟨11, 4⟩, ⟨2, 9⟩, ⟨1, 1⟩] := by
    rw [threeBlocks, four, large, one]
    rfl
  refine ⟨held, ?_⟩
  -- Only the large block has to find a run in front of the last cluster.
  have early : LargeBeforeLast memoryManagerStart
      (emptyHeap.after memoryManagerStart (.tMalloc 0x4000)) (.tMalloc 0x20000) := by
    intro _ _ _
    refine ⟨2, by decide, by decide, fun k bound => ?_⟩
    rw [countLarge] at bound
    exact filledOne.2 _ (by omega) (by omega)
  have fresh : ((heapSystem memoryManagerStart).restrict (LargeBeforeLast memoryManagerStart)).Runs
      [] emptyHeap := .initial ⟨_, rfl⟩
  have smallOne : LargeBeforeLast memoryManagerStart emptyHeap (.tMalloc 0x4000) :=
    fun _ many => absurd many (by decide)
  have smallFour : LargeBeforeLast memoryManagerStart
      ((emptyHeap.after memoryManagerStart (.tMalloc 0x4000)).after memoryManagerStart
        (.tMalloc 0x20000)) (.tMalloc 0x8000) := fun _ many => absurd many (by decide)
  have afterOne := runs_after fresh (.tMalloc 0x4000) smallOne (by decide : 0x4000 < 2 ^ 32)
  have afterLarge := runs_after afterOne (.tMalloc 0x20000) early (by decide : 0x20000 < 2 ^ 32)
  have afterFour := runs_after afterLarge (.tMalloc 0x8000) smallFour (by decide : 0x8000 < 2 ^ 32)
  have freedOne := runs_after afterFour (.tFree (memoryManagerStart + 0x4000)) trivial
    ⟨by decide, by decide⟩
  have freedInside := runs_after freedOne (.tFree (memoryManagerStart + 5 * 0x4000)) trivial
    ⟨by decide, by decide⟩
  exact heap_safe_of_largeBeforeLast arena _ _ freedInside

/-! ## A block in the last cluster -/

/-- With a block of 59 clusters up to the last cluster and a block of six clusters in
it, freeing both leaves `CC FF FF CC BB` behind the table. -/
theorem remainder_behind_table {memory : Memory} (filled : FilledTo start memory 964) :
    ∃ rest : Memory,
      tFree start (tFree start (stamp start (stamp start memory ⟨964, 59⟩) ⟨1023, 6⟩)
        (Block.address start ⟨1023, 6⟩)) (Block.address start ⟨964, 59⟩) = rest ∧
      (∀ k, 1 ≤ k → k < 964 → rest (start + k) ≠ 0) ∧
      (∀ k, 964 ≤ k → k < 1024 → rest (start + k) = 0) ∧
      ∀ j, j < 5 → rest (start + (1024 + j)) = tagByte 6 (j + 1) := by
  have last : tFree start (stamp start (stamp start memory ⟨964, 59⟩) ⟨1023, 6⟩)
      (Block.address start ⟨1023, 6⟩) =
        release start (stamp start (stamp start memory ⟨964, 59⟩) ⟨1023, 6⟩) ⟨1023, 6⟩ :=
    tFree_tagged (by decide) (.inr (.inr (by decide))) (stamp_tagged _)
  have tagged : Tagged start
      (release start (stamp start (stamp start memory ⟨964, 59⟩) ⟨1023, 6⟩) ⟨1023, 6⟩)
      ⟨964, 59⟩ := by
    intro k bound
    simp only at bound
    rw [release, if_neg (by simp only; omega), stamp_outside _ (by simp only; omega)]
    exact stamp_inside ⟨964, 59⟩ bound
  rw [last]
  refine ⟨_, tFree_tagged (by decide) (.inr (.inr (by decide))) tagged, ?_, ?_, ?_⟩
  · intro k lower upper
    rw [release, if_neg (by simp only; omega), release, if_neg (by simp only; omega),
      stamp_outside _ (by simp only; omega), stamp_outside _ (by simp only; omega)]
    exact filled.1 k lower upper
  · intro k lower upper
    have stopLow : Block.releasedStop ⟨964, 59⟩ = 1023 := by decide
    have stopHigh : Block.releasedStop ⟨1023, 6⟩ = 1024 := by decide
    by_cases inLow : k < 1023
    · rw [release, if_pos (by rw [stopLow]; simp only; omega)]
    · rw [release, if_neg (by rw [stopLow]; omega), release,
        if_pos (by rw [stopHigh]; simp only; omega)]
  · intro j bound
    have stopLow : Block.releasedStop ⟨964, 59⟩ = 1023 := by decide
    have stopHigh : Block.releasedStop ⟨1023, 6⟩ = 1024 := by decide
    rw [release, if_neg (by rw [stopLow]; omega), release, if_neg (by rw [stopHigh]; omega),
      show 1024 + j = 1023 + (j + 1) by omega]
    exact stamp_inside ⟨1023, 6⟩ (by simp only; omega)

/-- In front of `CC FF FF`, the last entry of a block that ends in the last cluster is
taken for the start of a block. -/
theorem tFree_last_entry {memory : Memory} (last : memory (start + 1023) = 0xBB)
    (behind : ∀ j, j < 5 → memory (start + (1024 + j)) = tagByte 6 (j + 1)) :
    tFree start memory (start + 1023 * 0x4000) (start + 1023) = 0 := by
  have notMiddle : ¬holdsDword memory (start + 1023) 0xB8BADCFE = true := by
    intro word
    have byte := holdsDword_iff.mp word 0 (by omega)
    rw [Nat.add_zero, last] at byte
    exact absurd byte (by decide)
  have found : holdsDword memory (start + 1023) 0xFFFFCCBB = true := by
    rw [holdsDword_iff]
    intro k bound
    rcases (by omega : k = 0 ∨ k = 1 ∨ k = 2 ∨ k = 3) with rfl | rfl | rfl | rfl
    · exact last
    · exact behind 0 (by omega)
    · exact behind 1 (by omega)
    · exact behind 2 (by omega)
  rw [tFree_cluster (by decide), if_neg (by rw [last]; decide), if_neg notMiddle, if_pos found]
  have notMarker : ¬(memory (start + 1023) = 0xCC ∧ memory (start + (1023 + 1)) = 0xBB) := by
    rintro ⟨byte, -⟩
    rw [last] at byte
    exact absurd byte (by decide)
  rw [show 0x400 - 1023 = 0 + 1 by rfl, freeLarge, if_neg notMarker, freeLarge]
  simp

/-- Filling the arena, placing a block of six clusters in its last cluster, freeing it
and allocating up to the last cluster again leads to a state in which freeing an
address inside a live block clears one of its entries. -/
theorem interior_free_breaks_a_block :
    ¬∀ calls state, (heapSystem memoryManagerStart).Runs calls state →
      HeapSafe memoryManagerStart state := by
  intro safe
  have arena : memoryManagerStart + arenaSize ≤ 2 ^ 32 := by decide
  have countLow : clustersFor 0xE8000 = 59 := by decide
  have countHigh : clustersFor 0x14000 = 6 := by decide
  have countNew : clustersFor 0xEC000 = 60 := by decide
  obtain ⟨full, reachable, filled⟩ := exists_reachable_filled arena
  obtain ⟨rest, freed, taken, free, behind⟩ := remainder_behind_table filled
  obtain ⟨low, reachable, lowMemory, filledLow⟩ : ∃ low,
      (heapSystem memoryManagerStart).Reachable low ∧
        low.memory = stamp memoryManagerStart full.memory ⟨964, 59⟩ ∧
        FilledTo memoryManagerStart low.memory 1023 := by
    obtain ⟨result, next⟩ := filled.tMalloc arena (by decide) (by decide) 0xE8000 (by decide)
    rw [countLow] at result next
    exact ⟨_, reachable_after reachable (.tMalloc 0xE8000) (by decide : 0xE8000 < 2 ^ 32),
      congrArg HeapState.memory result, next⟩
  obtain ⟨high, reachable, highMemory⟩ : ∃ high,
      (heapSystem memoryManagerStart).Reachable high ∧
        high.memory = stamp memoryManagerStart low.memory ⟨1023, 6⟩ := by
    obtain ⟨result, -⟩ := filledLow.tMalloc arena (by decide) (by decide) 0x14000 (by decide)
    rw [countHigh] at result
    exact ⟨_, reachable_after reachable (.tMalloc 0x14000) (by decide : 0x14000 < 2 ^ 32),
      congrArg HeapState.memory result⟩
  obtain ⟨cleared, reachable, clearedMemory⟩ : ∃ cleared,
      (heapSystem memoryManagerStart).Reachable cleared ∧ cleared.memory = rest := by
    have once := reachable_after reachable
      (.tFree (Block.address memoryManagerStart ⟨1023, 6⟩)) ⟨by decide, by decide⟩
    have twice := reachable_after once
      (.tFree (Block.address memoryManagerStart ⟨964, 59⟩)) ⟨by decide, by decide⟩
    refine ⟨_, twice, ?_⟩
    rw [← freed, ← lowMemory, ← highMemory]
    rfl
  subst clearedMemory
  have search : firstFree memoryManagerStart cleared.memory 60 = some 964 := by
    rw [firstFree_eq_some]
    refine ⟨fun k bound => free _ (by omega) (by omega), by decide, by decide, ?_⟩
    intro other lower upper otherFree
    exact taken other lower upper (otherFree 0 (by decide))
  have broken := reachable_after reachable (.tMalloc 0xEC000) (by decide : 0xEC000 < 2 ^ 32)
  rcases after_tMalloc_cases arena cleared 0xEC000 with ⟨-, noRun⟩ | ⟨-, cluster, found, result⟩
  · rw [countNew] at noRun
    exact noRun ⟨by decide, 964, by decide, by decide, (firstFree_eq_some.mp search).1⟩
  rw [countNew] at found result
  obtain rfl : 964 = cluster := by simpa using search.symm.trans found
  rw [result] at broken
  obtain ⟨history, run⟩ := broken
  have last : stamp memoryManagerStart cleared.memory ⟨964, 60⟩
      (memoryManagerStart + (964 + 59)) = tagByte 60 59 := stamp_inside ⟨964, 60⟩ (by decide)
  have clearedEntry := tFree_last_entry last fun j bound => by
    rw [stamp_outside _ (by simp only [Block.stop]; omega)]
    exact behind j bound
  have kept := (safe history _ run).untouched (memoryManagerStart + 1023 * 0x4000) (by decide)
    (by decide) ⟨964, 60⟩ (List.mem_cons_self) (by decide) 59 (by decide)
  exact absurd (clearedEntry.symm.trans (kept.trans last)) (by decide)

end Cromwell.Heap
