import Cromwell.Iso9660.Contents

/-!
# The limit of a file read from a CD

Whatever the memory holds, a file arrives whole and within its limit exactly if it is
shorter than the limit, its whole blocks fit, and each of them can be read. A longer file is
given the size that is found in the memory the limit points to.
-/

namespace Cromwell.Iso9660

open Cromwell.Std

/-- The bytes of the blocks that a file of this size is copied in. -/
def blockBytes (size : Nat) : Nat := if size ≤ 2048 then 2048 else (size / 2048 + 1) * 2048

/-- The file, as much of it as the limit allows, and nothing behind the limit. -/
structure ReadsFile (disc : Disc) (record : DirectoryRecord) (buffer : Nat) (limit : UInt32)
    (memory : Memory) : Prop where
  returned : (readFile disc record buffer limit memory).1.toNat =
    min record.size.toNat limit.toNat
  contents : ∀ i, i < min record.size.toNat limit.toNat → disc.fileByte record i =
    some ((readFile disc record buffer limit memory).2.memory (buffer + i))
  within : ∀ extent ∈ (readFile disc record buffer limit memory).2.writes,
    extent.Within ⟨buffer, limit.toNat⟩

section Limits

variable {disc : Disc} {record : DirectoryRecord} {buffer : Nat} {limit size : UInt32}
  {memory : Memory}

/-- Sizes that do not wrap are completed to whole blocks. -/
theorem toNat_wholeBlocks (bounded : blockBytes size.toNat < 2 ^ 32) :
    (wholeBlocks size).toNat = blockBytes size.toNat := by
  have short_iff : size ≤ isoBlocksize ↔ size.toNat ≤ 2048 := UInt32.le_iff_toNat_le
  unfold blockBytes at bounded ⊢
  unfold wholeBlocks
  by_cases short : size.toNat ≤ 2048
  · rw [if_pos (short_iff.mpr short), if_pos short]
    rfl
  · rw [if_neg short] at bounded
    rw [if_neg (mt short_iff.mp short), if_neg short, UInt32.toNat_add, toNat_blockRest,
      Nat.mod_eq_of_lt (by omega)]
    omega

/-- The largest sizes wrap to no block at all. -/
theorem wholeBlocks_wraps (wraps : 2 ^ 32 ≤ blockBytes size.toNat) : wholeBlocks size = 0 := by
  have bound := size.toNat_lt
  unfold blockBytes at wraps
  split at wraps
  · omega
  · next long =>
    have longer : ¬size ≤ isoBlocksize := fun short => long (UInt32.le_iff_toNat_le.mp short)
    rw [wholeBlocks, if_neg longer, ← UInt32.toNat_inj, UInt32.toNat_add, toNat_blockRest]
    change _ % 2 ^ 32 = 0
    omega

theorem add_block_lt {size : Nat} (bounded : blockBytes size < 2 ^ 32) : size + 2048 < 2 ^ 32 := by
  unfold blockBytes at bounded
  split at bounded <;> omega

theorem readSize_shorter (shorter : record.size < limit) :
    readSize record limit memory = record.size := if_pos shorter

/-- Nothing is copied of a file whose size has wrapped. -/
theorem readFile_wraps (wraps : wholeBlocks (readSize record limit memory) = 0) :
    (readFile disc record buffer limit memory).2.memory = memory := by
  rw [readFile, wraps]
  rfl

/-- No memory has a limit everywhere that it is. -/
theorem exists_dword_ne (limit : Nat) :
    ∃ value : Byte, Memory.dword (fun _ => value) limit ≠ limit := by
  by_cases zero : limit = 0
  · refine ⟨1, ?_⟩
    rw [zero]
    decide
  · refine ⟨0, ?_⟩
    simpa [Memory.dword, eq_comm] using zero

theorem exists_byte_ne (byte : Option Byte) : ∃ value : Byte, byte ≠ some value := by
  by_cases zero : byte = some 0
  · refine ⟨1, ?_⟩
    rw [zero]
    decide
  · exact ⟨0, zero⟩

/-- A file that is read has been read from blocks that can be read. -/
theorem ReadsFile.readable (reads : ReadsFile disc record buffer limit memory)
    (shorter : record.size < limit) : disc.Readable record record.size.toNat := by
  have least : min record.size.toNat limit.toNat = record.size.toNat :=
    Nat.min_eq_left (Nat.le_of_lt (UInt32.lt_iff_toNat_lt.mp shorter))
  intro k inside
  have byte := reads.contents (k * 2048) (by rwa [least])
  rw [Disc.fileByte, Nat.mul_div_cancel k (by decide)] at byte
  cases block : disc.sector (record.extent + UInt32.ofNat k) with
  | none =>
      rw [block] at byte
      cases byte
  | some _ => rfl

/-- A file that is read stays below its limit in whole blocks, or its size has wrapped. -/
theorem ReadsFile.fits (reads : ReadsFile disc record buffer limit memory)
    (shorter : record.size < limit) (bounded : blockBytes record.size.toNat < 2 ^ 32) :
    blockBytes record.size.toNat ≤ limit.toNat := by
  have fits := readFile_within.mp reads.within
  rwa [readSize_shorter shorter, toNat_wholeBlocks bounded] at fits

/-- A size that wraps leaves the buffer as it was, which is not the file in every memory. -/
theorem bounded_of_readsFile (reads : ∀ memory, ReadsFile disc record buffer limit memory)
    (shorter : record.size < limit) : blockBytes record.size.toNat < 2 ^ 32 := by
  by_contra wraps
  have none : wholeBlocks record.size = 0 := wholeBlocks_wraps (Nat.le_of_not_lt wraps)
  have some_byte : 0 < min record.size.toNat limit.toNat := by
    have below : record.size.toNat < limit.toNat := UInt32.lt_iff_toNat_lt.mp shorter
    have long : 2048 < record.size.toNat := by
      by_contra short
      rw [blockBytes, if_pos (Nat.le_of_not_lt short)] at wraps
      omega
    omega
  obtain ⟨value, other⟩ := exists_byte_ne (disc.fileByte record 0)
  have byte := (reads fun _ => value).contents 0 some_byte
  rw [readFile_wraps (by rwa [readSize_shorter shorter])] at byte
  exact other byte

/-- The size returned to a long file is found in memory. -/
theorem ReadsFile.pointed (reads : ReadsFile disc record buffer limit memory)
    (longer : ¬record.size < limit) : memory.dword limit.toNat = limit.toNat := by
  have least : min record.size.toNat limit.toNat = limit.toNat :=
    Nat.min_eq_right (Nat.le_of_not_lt (mt UInt32.lt_iff_toNat_lt.mpr longer))
  have taken : readSize record limit memory = limit :=
    UInt32.toNat_inj.mp (reads.returned.trans least)
  exact (readSize_eq_max_iff.mp taken).2

/-- A short file whose whole blocks fit and can be read is read. -/
theorem readsFile (shorter : record.size < limit)
    (fits : blockBytes record.size.toNat ≤ limit.toNat)
    (readable : disc.Readable record record.size.toNat) :
    ReadsFile disc record buffer limit memory := by
  have taken : readSize record limit memory = record.size := readSize_shorter shorter
  have least : min record.size.toNat limit.toNat = record.size.toNat :=
    Nat.min_eq_left (Nat.le_of_lt (UInt32.lt_iff_toNat_lt.mp shorter))
  have bounded : blockBytes record.size.toNat < 2 ^ 32 := Nat.lt_of_le_of_lt fits limit.toNat_lt
  constructor
  · rw [least]
    exact congrArg UInt32.toNat taken
  · rw [least]
    intro i inside
    have room : (readSize record limit memory).toNat + 2048 < 2 ^ 32 := by
      rw [taken]
      exact add_block_lt bounded
    obtain ⟨block, read⟩ := Option.isSome_iff_exists.mp (readable (i / 2048) (by omega))
    rw [readFile_byte room (by rwa [taken]), Disc.fileByte, read]
    rfl
  · apply readFile_within.mpr
    rw [taken, toNat_wholeBlocks bounded]
    exact fits

/-- Exactly the files that are shorter than the limit, fit in whole blocks and can be read
arrive as they should in every memory. -/
theorem readFile_iff (disc : Disc) (record : DirectoryRecord) (buffer : Nat) (limit : UInt32) :
    (∀ memory, ReadsFile disc record buffer limit memory) ↔
      record.size < limit ∧ blockBytes record.size.toNat ≤ limit.toNat ∧
        disc.Readable record record.size.toNat := by
  constructor
  · intro reads
    have shorter : record.size < limit := by
      by_contra longer
      obtain ⟨value, other⟩ := exists_dword_ne limit.toNat
      exact other ((reads fun _ => value).pointed longer)
    refine ⟨shorter, ?_, (reads fun _ => 0).readable shorter⟩
    exact (reads fun _ => 0).fits shorter (bounded_of_readsFile reads shorter)
  · rintro ⟨shorter, fits, readable⟩ memory
    exact readsFile shorter fits readable

/-- A disc full of zeros. -/
def zeroDisc : Disc where
  volume := true
  lookup _ := some ⟨20, 0x80000⟩
  sector _ := some fun _ => 0

/-- A boot loader that is as long as its limit is given the size that is found there. -/
theorem readFile_at_limit : ¬ReadsFile zeroDisc ⟨20, 0x80000⟩ 0x1000 0x80000 fun _ => 0 := by
  intro reads
  have pointed := reads.pointed (by decide)
  exact absurd pointed (by decide)

end Limits

end Cromwell.Iso9660
