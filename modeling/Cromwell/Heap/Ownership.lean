import Cromwell.Heap.RoundTrip
import Mathlib.Data.Set.Insert

/-!
# Who owns which table entry

The table itself does not say where a block begins; `t_free` infers it from four
bytes. The invariant below assigns every nonzero entry to the block that marked it.
A `Mark` is a block together with the first of its entries that is still set: a
large block that ran out of the arena loses its entries below `0x400` when it is
freed, and the rest of its tag stays behind the table for good.

Such a remainder is harmless unless it begins with `CC FF FF`: then the last entry
`BB` of a block that ends at the end of the table looks like a block start. The
remainder begins like that only when the block stood in the last cluster.
-/

namespace Cromwell.Heap

open Cromwell.Std

/-- A block and the first of its entries that is still set. -/
structure Mark where
  block : Block
  first : Nat

/-- The entries a mark covers. -/
def Mark.Covers (mark : Mark) (entry : Nat) : Prop :=
  mark.first ≤ entry ∧ entry < mark.block.stop

/-- Either the whole block is marked, or the part behind the table of a large block
that did not stand in the last cluster. -/
structure Mark.WellFormed (mark : Mark) : Prop where
  lower : 1 ≤ mark.block.cluster
  upper : mark.block.cluster < 0x400
  sized : mark.block.Sized
  nonempty : mark.first < mark.block.stop
  belowLast : 6 ≤ mark.block.clusters → mark.block.cluster ≠ 0x3ff
  extent : mark.first = mark.block.cluster ∨ mark.first = 0x400 ∧ 6 ≤ mark.block.clusters

/-- Two marks cover no common entry. -/
def Mark.Apart (left right : Mark) : Prop :=
  left.block.stop ≤ right.first ∨ right.block.stop ≤ left.first

/-- Every nonzero entry behind the first one belongs to exactly one mark. -/
structure Owned (start : Nat) (memory : Memory) (marks : Set Mark) : Prop where
  wellFormed : ∀ mark ∈ marks, mark.WellFormed
  tags : ∀ mark ∈ marks, ∀ k, mark.first ≤ mark.block.cluster + k → k < mark.block.clusters →
    memory (start + (mark.block.cluster + k)) = tagByte mark.block.clusters k
  apart : ∀ left ∈ marks, ∀ right ∈ marks, left ≠ right → left.Apart right
  reserved : memory start = 0xff
  covered : ∀ entry, 1 ≤ entry → entry < 0x4000 → memory (start + entry) ≠ 0 →
    ∃ mark ∈ marks, mark.Covers entry

/-- The mark of a block none of whose entries have been cleared. -/
def Block.mark (block : Block) : Mark := ⟨block, block.cluster⟩

variable {start : Nat} {memory : Memory} {marks : Set Mark}

/-! ## Reading a tag -/

theorem clusters_of_tag_small {clusters k : Nat} (bound : k < clusters)
    (sizeClass : clusters = 1 ∨ clusters = 4 ∨ 5 ≤ clusters)
    (tag : tagByte clusters k = 0xAA) : clusters = 1 := by
  rcases sizeClass with one | rfl | large
  · exact one
  · rcases tagByte_four bound with ⟨byte, _⟩ | ⟨byte, _⟩ | ⟨byte, _⟩ | ⟨byte, _⟩ <;>
      exact absurd (tag.symm.trans byte) (by decide)
  · rw [tagByte_large large] at tag
    split_ifs at tag <;> exact absurd tag (by decide)

theorem offset_of_tag_middle {clusters k : Nat} (bound : k < clusters)
    (sizeClass : clusters = 1 ∨ clusters = 4 ∨ 5 ≤ clusters)
    (tag : tagByte clusters k = 0xFE) : k = 0 := by
  rcases sizeClass with rfl | rfl | large
  · omega
  · rcases tagByte_four bound with ⟨_, offset⟩ | ⟨byte, _⟩ | ⟨byte, _⟩ | ⟨byte, _⟩
    · exact offset
    all_goals exact absurd (tag.symm.trans byte) (by decide)
  · rw [tagByte_large large] at tag
    split_ifs at tag <;> exact absurd tag (by decide)

theorem offset_of_tag_outer {clusters k : Nat} (bound : k < clusters)
    (sizeClass : clusters = 1 ∨ clusters = 4 ∨ 5 ≤ clusters)
    (tag : tagByte clusters k = 0xBB) : k = 0 ∨ k + 1 = clusters := by
  rcases sizeClass with rfl | rfl | large
  · omega
  · rcases tagByte_four bound with ⟨byte, _⟩ | ⟨byte, _⟩ | ⟨byte, _⟩ | ⟨byte, _⟩ <;>
      exact absurd (tag.symm.trans byte) (by decide)
  · by_contra inner
    rw [tagByte_large large, if_neg inner] at tag
    split_ifs at tag <;> exact absurd tag (by decide)

theorem offset_of_tag_inner {clusters k : Nat} (bound : k < clusters)
    (sizeClass : clusters = 1 ∨ clusters = 4 ∨ 5 ≤ clusters)
    (tag : tagByte clusters k = 0xCC) : 5 ≤ clusters ∧ (k = 1 ∨ k + 2 = clusters) := by
  rcases sizeClass with rfl | rfl | large
  · exact absurd tag (by rw [tagByte_one]; decide)
  · rcases tagByte_four bound with ⟨byte, _⟩ | ⟨byte, _⟩ | ⟨byte, _⟩ | ⟨byte, _⟩ <;>
      exact absurd (tag.symm.trans byte) (by decide)
  · refine ⟨large, ?_⟩
    by_contra outer
    rw [tagByte_large large] at tag
    split_ifs at tag <;> exact absurd tag (by decide)

/-! ## What `t_free` recognises -/

/-- A covered entry carries the tag byte of its offset. -/
theorem Owned.tag_of_covers (owned : Owned start memory marks) {mark : Mark} {entry : Nat}
    (member : mark ∈ marks) (covers : mark.Covers entry) :
    ∃ k, entry = mark.block.cluster + k ∧ k < mark.block.clusters ∧
      memory (start + entry) = tagByte mark.block.clusters k := by
  obtain ⟨lower, upper⟩ := covers
  have formed := owned.wellFormed mark member
  have behind : mark.block.cluster ≤ entry := by
    rcases formed.extent with whole | ⟨rest, -⟩
    · omega
    · have := formed.upper
      omega
  unfold Block.stop at upper
  obtain ⟨k, rfl⟩ : ∃ k, entry = mark.block.cluster + k := ⟨entry - mark.block.cluster, by omega⟩
  exact ⟨k, rfl, by omega, owned.tags mark member k lower (by omega)⟩

/-- A nonzero entry of the table is the entry of some mark. -/
theorem Owned.exists_tag (owned : Owned start memory marks) {entry : Nat} {value : Byte}
    (inTable : entry < 0x4000) (byte : memory (start + entry) = value)
    (nonzero : value ≠ 0) (notReserved : value ≠ 0xff ∨ 1 ≤ entry) :
    ∃ mark ∈ marks, mark.Covers entry ∧ ∃ k, entry = mark.block.cluster + k ∧
      k < mark.block.clusters ∧ tagByte mark.block.clusters k = value := by
  have lower : 1 ≤ entry := by
    by_contra first
    obtain rfl : entry = 0 := by omega
    rw [Nat.add_zero, owned.reserved] at byte
    rcases notReserved with other | later
    · exact other byte.symm
    · omega
  obtain ⟨mark, member, covers⟩ := owned.covered entry lower inTable (by rw [byte]; exact nonzero)
  obtain ⟨k, offset, bound, tag⟩ := owned.tag_of_covers member covers
  exact ⟨mark, member, covers, k, offset, bound, tag.symm.trans byte⟩

/-- The first entry of a block is covered only by its whole mark. -/
theorem Mark.WellFormed.whole {mark : Mark} (formed : mark.WellFormed)
    (covers : mark.Covers mark.block.cluster) : mark = mark.block.mark := by
  obtain ⟨lower, -⟩ := covers
  rcases formed.extent with same | ⟨rest, -⟩
  · cases mark
    simp only [Block.mark, Mark.mk.injEq, true_and]
    exact same
  · have := formed.upper
    omega

/-- The prefix of a large block is found only at the start of a marked block. -/
theorem Owned.start_of_prefix (owned : Owned start memory marks) {cluster : Nat}
    (inTable : cluster < 0x400) (word : holdsDword memory (start + cluster) 0xFFFFCCBB = true) :
    ∃ block : Block, block.cluster = cluster ∧ block.mark ∈ marks := by
  have bytes := holdsDword_iff.mp word
  have zeroth : memory (start + cluster) = 0xBB := bytes 0 (by omega)
  have firstByte : memory (start + (cluster + 1)) = 0xCC := bytes 1 (by omega)
  have secondByte : memory (start + (cluster + 2)) = 0xFF := bytes 2 (by omega)
  obtain ⟨mark, member, covers, k, offset, bound, tag⟩ :=
    owned.exists_tag (by omega) zeroth (by decide) (.inl (by decide))
  have formed := owned.wellFormed mark member
  rcases offset_of_tag_outer bound formed.sized tag with zero | last
  · subst zero offset
    exact ⟨mark.block, rfl, formed.whole covers ▸ member⟩
  -- The entry is the last one of `mark`, so the next entry begins another mark.
  exfalso
  obtain ⟨other, otherMember, otherCovers, j, otherOffset, otherBound, otherTag⟩ :=
    owned.exists_tag (by omega) firstByte (by decide) (.inl (by decide))
  have otherFormed := owned.wellFormed other otherMember
  have distinct : mark ≠ other := by
    rintro rfl
    omega
  have separate := owned.apart mark member other otherMember distinct
  unfold Mark.Covers Block.stop at covers otherCovers
  unfold Mark.Apart Block.stop at separate
  obtain ⟨large, inner⟩ := offset_of_tag_inner otherBound otherFormed.sized otherTag
  rcases otherFormed.extent with whole | ⟨rest, long⟩
  · omega
  · -- The remainder of a block behind the table cannot begin with `CC FF`.
    have notLast := otherFormed.belowLast long
    have nextByte := owned.tags other otherMember (j + 1) (by omega) (by omega)
    rw [tagByte_large large, if_pos (by omega),
      show other.block.cluster + (j + 1) = cluster + 2 by omega, secondByte] at nextByte
    exact absurd nextByte (by decide)

/-- `t_free` either does nothing or releases the marked block at its argument. -/
theorem Owned.tFree_cases (owned : Owned start memory marks) {ptr : Nat}
    (lower : start ≤ ptr) (upper : ptr < start + arenaSize) :
    tFree start memory ptr = memory ∨
      ∃ block : Block, block.mark ∈ marks ∧ ptr = block.address start ∧
        tFree start memory ptr = release start memory block := by
  by_cases unaligned : (ptr - start) % 0x4000 ≠ 0
  · exact .inl (tFree_unaligned lower upper unaligned)
  unfold arenaSize at upper
  obtain ⟨cluster, rfl⟩ : ∃ cluster, ptr = start + cluster * 0x4000 :=
    ⟨(ptr - start) / 0x4000, by omega⟩
  have inTable : cluster < 0x400 := by omega
  have released : (∃ block : Block, block.cluster = cluster ∧ block.mark ∈ marks) →
      ∃ block : Block, block.mark ∈ marks ∧ start + cluster * 0x4000 = block.address start ∧
        tFree start memory (start + cluster * 0x4000) = release start memory block := by
    rintro ⟨block, rfl, member⟩
    have formed := owned.wellFormed _ member
    refine ⟨block, member, rfl, tFree_tagged inTable formed.sized ?_⟩
    intro k bound
    exact owned.tags _ member k (Nat.le_add_right _ _) bound
  have starting : ∀ {mark : Mark}, mark ∈ marks → mark.Covers cluster →
      mark.block.cluster = cluster →
      ∃ block : Block, block.cluster = cluster ∧ block.mark ∈ marks := by
    rintro mark member covers rfl
    exact ⟨mark.block, rfl, (owned.wellFormed mark member).whole covers ▸ member⟩
  by_cases small : memory (start + cluster) = 0xAA
  · right
    apply released
    obtain ⟨mark, member, covers, k, offset, bound, tag⟩ :=
      owned.exists_tag (by omega) small (by decide) (.inl (by decide))
    have one := clusters_of_tag_small bound (owned.wellFormed mark member).sized tag
    exact starting member covers (by omega)
  by_cases middle : holdsDword memory (start + cluster) 0xB8BADCFE = true
  · right
    apply released
    have byte : memory (start + cluster) = 0xFE := holdsDword_iff.mp middle 0 (by omega)
    obtain ⟨mark, member, covers, k, offset, bound, tag⟩ :=
      owned.exists_tag (by omega) byte (by decide) (.inl (by decide))
    have zero := offset_of_tag_middle bound (owned.wellFormed mark member).sized tag
    exact starting member covers (by omega)
  by_cases large : holdsDword memory (start + cluster) 0xFFFFCCBB = true
  · exact .inr (released (owned.start_of_prefix inTable large))
  · left
    rw [tFree_cluster inTable, if_neg small, if_neg middle, if_neg large]

end Cromwell.Heap
