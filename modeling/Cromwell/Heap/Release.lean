import Cromwell.Heap.Blocks

/-!
# What `t_free` gives back

`t_free` recognises a block by the bytes at its start, so its effect on a tagged
block is a function of the block alone: `releasedStop` says how far the entries
are cleared. A block of five clusters is tagged `BB CC FF CC BB` and is not
recognised at all, and a large block is only followed up to the end of the table.
-/

namespace Cromwell.Heap

open Cromwell.Std

variable {start : Nat} {memory : Memory} {cluster : Nat}

/-- The table entries of a block carry its tag. -/
def Tagged (start : Nat) (memory : Memory) (block : Block) : Prop :=
  ∀ k, k < block.clusters → memory (start + (block.cluster + k)) = tagByte block.clusters k

/-- The lengths `t_malloc` hands out. -/
def Block.Sized (block : Block) : Prop :=
  block.clusters = 1 ∨ block.clusters = 4 ∨ 5 ≤ block.clusters

theorem Block.Sized.pos {block : Block} (sized : block.Sized) : 0 < block.clusters := by
  rcases sized with one | four | large <;> omega

/-- Where `t_free` stops clearing the entries of a block. -/
def Block.releasedStop (block : Block) : Nat :=
  if block.clusters = 5 then block.cluster
  else if 5 < block.clusters ∧ 0x401 < block.stop then 0x400
  else block.stop

/-- Clear the entries `t_free` gives back. -/
def release (start : Nat) (memory : Memory) (block : Block) : Memory := fun x =>
  if start + block.cluster ≤ x ∧ x < start + block.releasedStop then 0 else memory x

theorem Block.releasedStop_le (block : Block) : block.releasedStop ≤ block.stop := by
  unfold releasedStop stop
  split <;> try split
  all_goals omega

theorem Block.sized_clustersFor (cluster size : Nat) : Block.Sized ⟨cluster, clustersFor size⟩ :=
  clustersFor_class size

/-! ## The table entry a pointer selects -/

/-- A pointer into the arena that is not aligned to a cluster is ignored. -/
theorem tFree_unaligned {ptr : Nat} (lower : start ≤ ptr) (upper : ptr < start + arenaSize)
    (unaligned : (ptr - start) % 0x4000 ≠ 0) : tFree start memory ptr = memory := by
  unfold arenaSize at upper
  have offset : (ptr + 2 ^ 32 - start) % 2 ^ 32 = ptr - start := by omega
  have masked : ptr - start &&& 0xffffc000 = (ptr - start) / 0x4000 * 0x4000 :=
    and_highMask 32 14 (by omega) (by omega)
  rw [tFree, offset, masked, if_neg (by omega)]

/-- `t_free` at the start of a cluster decides by the table bytes of that cluster. -/
theorem tFree_cluster (inTable : cluster < 0x400) :
    tFree start memory (start + cluster * 0x4000) =
      if memory (start + cluster) = 0xAA then memory.set (start + cluster) 0
      else if holdsDword memory (start + cluster) 0xB8BADCFE then
        memory.memset (start + cluster) 0 4
      else if holdsDword memory (start + cluster) 0xFFFFCCBB then
        freeLarge start (0x400 - cluster) cluster memory
      else memory := by
  have offset : (start + cluster * 0x4000 + 2 ^ 32 - start) % 2 ^ 32 = cluster * 0x4000 := by
    omega
  have index : cluster * 0x4000 / 0x4000 = cluster := by omega
  have masked : cluster * 0x4000 &&& 0xffffc000 = cluster * 0x4000 / 0x4000 * 0x4000 :=
    and_highMask 32 14 (by omega) (by omega)
  rw [index] at masked
  rw [tFree, offset, if_pos masked, index]

theorem holdsDword_iff {address dummy : Nat} :
    holdsDword memory address dummy = true ↔
      ∀ k, k < 4 → memory (address + k) = (dwordBytes dummy).getD k 0 := by
  rw [holdsDword, beq_iff_eq]
  constructor
  · intro same k bound
    have item := List.getElem_of_eq same (by simpa using bound : k < _)
    rw [Memory.getElem_bytes] at item
    rw [item, List.getD_eq_getElem _ _ (by simpa using bound)]
  · intro same
    apply List.ext_getElem (by simp)
    intro k left right
    rw [Memory.getElem_bytes, same k (by simpa using left), List.getD_eq_getElem _ _ right]

/-! ## Clearing a large block -/

/-- The end marker `CC BB` of a large block is where the block ends, and nowhere before. -/
theorem endMarker_iff {clusters k : Nat} (large : 5 < clusters) (inside : k + 1 < clusters) :
    tagByte clusters k = 0xCC ∧ tagByte clusters (k + 1) = 0xBB ↔ k + 2 = clusters := by
  rw [tagByte_large (by omega), tagByte_large (by omega)]
  constructor
  · rintro ⟨hereTag, nextTag⟩
    by_contra before
    have second : k = 1 := by
      by_contra notSecond
      split_ifs at hereTag <;> first | omega | exact absurd hereTag (by decide)
    rw [if_neg (by omega), if_neg (by omega)] at nextTag
    exact absurd nextTag (by decide)
  · intro last
    rw [if_neg (by omega), if_pos (by omega), if_pos (by omega)]
    exact ⟨rfl, rfl⟩

/-- The loop over a large block clears it up to its end marker, or up to the end
of the table when the marker lies behind that. The induction is on the rounds
left; `counter` has not passed the marker. -/
theorem freeLarge_tagged (block : Block) (large : 5 < block.clusters) (rounds : Nat) :
    ∀ (counter : Nat) (memory : Memory), rounds + counter = 0x400 →
      block.cluster ≤ counter → counter + 1 < block.stop →
      (∀ k, counter ≤ block.cluster + k → k < block.clusters →
        memory (start + (block.cluster + k)) = tagByte block.clusters k) →
      freeLarge start rounds counter memory = fun x =>
        if start + counter ≤ x ∧ x < start + block.releasedStop then 0 else memory x := by
  have notFive : block.clusters ≠ 5 := by omega
  induction rounds with
  | zero =>
      intro counter memory total lower upper tags
      have reached : block.releasedStop = 0x400 := by
        unfold Block.releasedStop
        rw [if_neg notFive, if_pos (by omega)]
      funext x
      rw [freeLarge, if_neg (by omega)]
  | succ rounds ih =>
      intro counter memory total lower upper tags
      unfold Block.stop at upper
      obtain ⟨k, rfl⟩ : ∃ k, counter = block.cluster + k := ⟨counter - block.cluster, by omega⟩
      have here := tags k (by omega) (by omega)
      have next := tags (k + 1) (by omega) (by omega)
      rw [← Nat.add_assoc block.cluster] at next
      have marked := endMarker_iff large (by omega : k + 1 < block.clusters)
      rw [← here, ← next] at marked
      by_cases marker : k + 2 = block.clusters
      · -- The end marker lies inside the table.
        have stops : block.releasedStop = block.cluster + k + 2 := by
          unfold Block.releasedStop Block.stop
          rw [if_neg notFive, if_neg (by omega)]
          omega
        rw [freeLarge, if_pos (marked.mpr marker), stops]
        funext x
        simp only [Memory.set]
        split_ifs <;> first | rfl | omega
      · have notMarker := mt marked.mp marker
        have rest := ih (block.cluster + k + 1)
          (memory.set (start + (block.cluster + k)) 0) (by omega) (by omega)
          (by unfold Block.stop; omega) (by
            intro j later bound
            rw [Memory.set_other _ (by omega)]
            exact tags j (by omega) bound)
        have ahead : block.cluster + k < block.releasedStop := by
          unfold Block.releasedStop Block.stop
          rw [if_neg notFive]
          split_ifs <;> omega
        rw [freeLarge, if_neg notMarker, rest]
        funext x
        simp only [Memory.set]
        split_ifs <;> first | rfl | omega

/-! ## Freeing a tagged block -/

theorem Tagged.small (tagged : Tagged start memory ⟨cluster, 1⟩) :
    memory (start + cluster) = 0xAA :=
  tagged 0 Nat.one_pos

theorem Tagged.middle (tagged : Tagged start memory ⟨cluster, 4⟩) :
    memory (start + cluster) ≠ 0xAA ∧
      holdsDword memory (start + cluster) 0xB8BADCFE = true := by
  constructor
  · have first : memory (start + cluster) = 0xFE := tagged 0 (Nat.succ_pos 3)
    rw [first]
    decide
  · rw [holdsDword_iff]
    intro k bound
    rw [Nat.add_assoc, tagged k bound]
    simp [tagByte]

section Large

variable {clusters : Nat}

theorem Tagged.first (tagged : Tagged start memory ⟨cluster, clusters⟩) (large : 5 ≤ clusters) :
    memory (start + cluster) = 0xBB := by
  have first := tagged 0 (by simp only; omega)
  rwa [tagByte_large large, if_pos (.inl rfl)] at first

theorem Tagged.not_small (tagged : Tagged start memory ⟨cluster, clusters⟩)
    (large : 5 ≤ clusters) : memory (start + cluster) ≠ 0xAA := by
  rw [tagged.first large]
  decide

theorem Tagged.not_middle (tagged : Tagged start memory ⟨cluster, clusters⟩)
    (large : 5 ≤ clusters) : ¬holdsDword memory (start + cluster) 0xB8BADCFE = true := by
  intro word
  have byte := holdsDword_iff.mp word 0 (Nat.succ_pos 3)
  rw [Nat.add_zero, tagged.first large] at byte
  exact absurd byte (by decide)

/-- A block of five clusters has the end marker in its fourth byte, so it is not recognised. -/
theorem Tagged.large_iff (tagged : Tagged start memory ⟨cluster, clusters⟩)
    (large : 5 ≤ clusters) :
    holdsDword memory (start + cluster) 0xFFFFCCBB = true ↔ clusters ≠ 5 := by
  have tags := fun k (bound : k < clusters) => (tagged k bound).trans (tagByte_large large k)
  rw [holdsDword_iff]
  constructor
  · rintro word rfl
    have byte := word 3 (by omega)
    rw [Nat.add_assoc, tags 3 (by omega)] at byte
    exact absurd byte (by decide)
  · intro notFive k bound
    rw [Nat.add_assoc, tags k (by omega)]
    obtain rfl | rfl | rfl | rfl : k = 0 ∨ k = 1 ∨ k = 2 ∨ k = 3 := by omega
    · rfl
    · rw [if_neg (by omega)]
      rfl
    · rw [if_neg (by omega), if_neg (by omega)]
      rfl
    · rw [if_neg (by omega), if_neg (by omega)]
      rfl

end Large

/-- `t_free` at the start of a tagged block clears exactly the entries up to
`releasedStop`. -/
theorem tFree_tagged {block : Block} (inTable : block.cluster < 0x400) (sized : block.Sized)
    (tagged : Tagged start memory block) :
    tFree start memory (start + block.cluster * 0x4000) = release start memory block := by
  obtain ⟨cluster, clusters⟩ := block
  simp only [Block.Sized] at sized inTable
  rw [tFree_cluster inTable]
  rcases sized with rfl | rfl | large
  · rw [if_pos tagged.small]
    funext x
    have single : (start + cluster ≤ x ∧ x < start + (cluster + 1)) ↔ x = start + cluster := by
      omega
    simp [Memory.set, release, Block.releasedStop, Block.stop, single]
  · obtain ⟨notSmall, word⟩ := tagged.middle
    rw [if_neg notSmall, if_pos word]
    funext x
    simp [Memory.memset, release, Block.releasedStop, Block.stop, Nat.add_assoc]
  · rw [if_neg (tagged.not_small large), if_neg (tagged.not_middle large)]
    by_cases five : clusters = 5
    · rw [if_neg (mt (tagged.large_iff large).mp (not_not.mpr five))]
      funext x
      rw [release, if_neg]
      simp only [Block.releasedStop, five, if_true]
      omega
    · rw [if_pos ((tagged.large_iff large).mpr five)]
      exact freeLarge_tagged ⟨cluster, clusters⟩ (by simp only; omega) _ _ _ (by omega)
        (Nat.le_refl _) (by simp only [Block.stop]; omega) fun k _ bound => tagged k bound

end Cromwell.Heap
