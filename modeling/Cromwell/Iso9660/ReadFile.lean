import Cromwell.Std.Memory
import Cromwell.Std.Walk

/-!
# Reading a file from a CD

`read_file` copies whole blocks. Its limit is meant to cut a long file short, but the size
is then fetched from the memory the limit points to. Blocks that cannot be read leave
zeros.
-/

namespace Cromwell.Iso9660

open Cromwell.Std

def isoBlocksize : UInt32 := 2048
def isofsBlockBits : UInt32 := 11

/-- Where a file is on the disc, as its directory record says. -/
structure DirectoryRecord where
  extent : UInt32
  size : UInt32

/-- A disc in the drive. `volume` says whether its descriptor can be read, `lookup` which
record the search for a path copies; a record with no extent counts as none. -/
structure Disc where
  volume : Bool
  lookup : List Byte → Option DirectoryRecord
  sector : UInt32 → Option Memory

/-- What a call leaves behind: the memory and the ranges copied to. -/
structure Copied where
  memory : Memory
  writes : List Extent

/-- The next `count` blocks of a file, numbered from `i`. -/
def readBlocks (disc : Disc) (readSize : UInt32) (buffer : Nat) :
    (count i : Nat) → (offset : UInt32) → Copied → Copied
  | 0, _, _, copied => copied
  | count + 1, i, offset, copied =>
    let tmpbuff := (disc.sector offset).getD fun _ => 0
    let start := UInt32.ofNat i * isoBlocksize
    let size := if readSize < UInt32.ofNat (i + 1) * isoBlocksize then start - readSize
      else isoBlocksize
    readBlocks disc readSize buffer count (i + 1) (offset + 1)
      { memory := copied.memory.memcpy (buffer + start.toNat) tmpbuff 0 size.toNat
        writes := ⟨buffer + start.toNat, size.toNat⟩ :: copied.writes }

/-- The size a file is taken to have. -/
def readSize (record : DirectoryRecord) (maxBytesToRead : UInt32) (memory : Memory) : UInt32 :=
  if record.size < maxBytesToRead then record.size
  else UInt32.ofNat (memory.dword maxBytesToRead.toNat)

/-- The size in whole blocks; a multiple of the block size has another one added. -/
def wholeBlocks (readSize : UInt32) : UInt32 :=
  if readSize ≤ isoBlocksize then isoBlocksize
  else readSize + (isoBlocksize - readSize % isoBlocksize)

def readFile (disc : Disc) (record : DirectoryRecord) (buffer : Nat) (maxBytesToRead : UInt32)
    (memory : Memory) : UInt32 × Copied :=
  let bytesRead := readSize record maxBytesToRead memory
  let size := wholeBlocks bytesRead
  (bytesRead, readBlocks disc size buffer (size >>> isofsBlockBits).toNat 0 record.extent
    ⟨memory, []⟩)

def bootIso9660GetFile (disc : Disc) (path : List Byte) (buffer : Nat) (maxLength : UInt32)
    (memory : Memory) : Int32 × Copied :=
  if disc.volume then
    match disc.lookup path with
    | none => (-1, ⟨memory, []⟩)
    | some record =>
      if record.extent = 0 then (-1, ⟨memory, []⟩)
      else
        let (bytesRead, copied) := readFile disc record buffer maxLength memory
        (bytesRead.toInt32, copied)
  else (-1, ⟨memory, []⟩)

/-! ## What is copied -/

section Writes

variable {disc : Disc} {record : DirectoryRecord} {buffer : Nat} {size : UInt32}

/-- What is added to a size to complete its last block. -/
theorem toNat_blockRest (size : UInt32) :
    (isoBlocksize - size % isoBlocksize).toNat = 2048 - size.toNat % 2048 := by
  have small : (size % isoBlocksize).toNat < 2048 := by
    rw [UInt32.toNat_mod]
    exact Nat.mod_lt _ (by decide)
  rw [UInt32.toNat_sub_of_le _ _ (UInt32.le_iff_toNat_le.mpr (Nat.le_of_lt small)),
    UInt32.toNat_mod]
  rfl

theorem toNat_wholeBlocks_mod (size : UInt32) : (wholeBlocks size).toNat % 2048 = 0 := by
  unfold wholeBlocks
  split
  · rfl
  · rw [UInt32.toNat_add, toNat_blockRest]
    omega

/-- A size below a limit of whole blocks stays below it in whole blocks. -/
theorem toNat_wholeBlocks_le {limit : Nat} (whole : limit % 2048 = 0) (bounded : limit < 2 ^ 32)
    (below : size.toNat < limit) : (wholeBlocks size).toNat ≤ limit := by
  unfold wholeBlocks
  split
  · change 2048 ≤ limit
    omega
  · rw [UInt32.toNat_add, toNat_blockRest]
    omega

/-- The blocks of a size. -/
theorem toNat_blockCount (size : UInt32) :
    (size >>> isofsBlockBits).toNat = size.toNat / 2048 := by
  rw [UInt32.toNat_shiftRight]
  exact Nat.shiftRight_eq_div_pow size.toNat 11

/-- As long as the size is not passed, a pass copies one whole block. -/
theorem readBlocks_succ {count i : Nat} {offset : UInt32} {copied : Copied}
    (fits : (i + (count + 1)) * 2048 ≤ size.toNat) :
    readBlocks disc size buffer (count + 1) i offset copied =
      readBlocks disc size buffer count (i + 1) (offset + 1)
        { memory := copied.memory.memcpy (buffer + i * 2048)
            ((disc.sector offset).getD fun _ => 0) 0 2048
          writes := ⟨buffer + i * 2048, 2048⟩ :: copied.writes } := by
  have bound := size.toNat_lt
  have here : (UInt32.ofNat i * isoBlocksize).toNat = i * 2048 := by
    rw [UInt32.toNat_mul, UInt32.toNat_ofNat_of_lt' (by change i < 2 ^ 32; omega)]
    change i * 2048 % 2 ^ 32 = _
    omega
  have next : (UInt32.ofNat (i + 1) * isoBlocksize).toNat = (i + 1) * 2048 := by
    rw [UInt32.toNat_mul, UInt32.toNat_ofNat_of_lt' (by change i + 1 < 2 ^ 32; omega)]
    change (i + 1) * 2048 % 2 ^ 32 = _
    omega
  have full : ¬size < UInt32.ofNat (i + 1) * isoBlocksize := by
    rw [UInt32.lt_iff_toNat_lt, next]
    omega
  have block : isoBlocksize.toNat = 2048 := rfl
  rw [readBlocks, if_neg full, here, block]

/-- Each block is copied whole, one behind the other. -/
theorem mem_readBlocks {count i : Nat} {offset : UInt32} {copied : Copied} {extent : Extent}
    (fits : (i + count) * 2048 ≤ size.toNat) :
    extent ∈ (readBlocks disc size buffer count i offset copied).writes ↔
      extent ∈ copied.writes ∨ ∃ k, i ≤ k ∧ k < i + count ∧ extent = ⟨buffer + k * 2048, 2048⟩ := by
  induction count generalizing i offset copied with
  | zero =>
      refine ⟨.inl, ?_⟩
      rintro (before | ⟨k, lower, upper, -⟩)
      · exact before
      · omega
  | succ count ih =>
      have rest : (i + 1 + count) * 2048 ≤ size.toNat := by
        rw [Nat.add_assoc, Nat.add_comm 1]
        exact fits
      rewrite [readBlocks_succ fits, ih rest, List.mem_cons]
      constructor
      · rintro ((rfl | before) | ⟨k, lower, upper, rfl⟩)
        · exact .inr ⟨i, by omega, by omega, rfl⟩
        · exact .inl before
        · exact .inr ⟨k, by omega, by omega, rfl⟩
      · rintro (before | ⟨k, lower, upper, rfl⟩)
        · exact .inl (.inr before)
        · rcases Nat.eq_or_lt_of_le lower with rfl | later
          · exact .inl (.inl rfl)
          · exact .inr ⟨k, by omega, by omega, rfl⟩

theorem readBlocks_grows {count i : Nat} {offset : UInt32} {copied : Copied} {extent : Extent}
    (before : extent ∈ copied.writes) :
    extent ∈ (readBlocks disc size buffer count i offset copied).writes := by
  induction count generalizing i offset copied with
  | zero => exact before
  | succ count ih => exact ih (List.mem_cons_of_mem _ before)

/-- A file stays within a buffer exactly if its whole blocks do. -/
theorem readFile_within {maxBytesToRead : UInt32} {memory : Memory} {length : Nat} :
    (∀ extent ∈ (readFile disc record buffer maxBytesToRead memory).2.writes,
      extent.Within ⟨buffer, length⟩) ↔
      (wholeBlocks (readSize record maxBytesToRead memory)).toNat ≤ length := by
  have whole := toNat_wholeBlocks_mod (readSize record maxBytesToRead memory)
  unfold readFile
  dsimp only
  generalize wholeBlocks (readSize record maxBytesToRead memory) = size at whole ⊢
  rw [toNat_blockCount]
  have fits : (0 + size.toNat / 2048) * 2048 ≤ size.toNat := by omega
  constructor
  · intro within
    rcases Nat.eq_zero_or_pos (size.toNat / 2048) with none | some_block
    · omega
    · have last := within ⟨buffer + (size.toNat / 2048 - 1) * 2048, 2048⟩
        ((mem_readBlocks fits).mpr (.inr ⟨size.toNat / 2048 - 1, by omega, by omega, rfl⟩))
      change _ ∧ buffer + (size.toNat / 2048 - 1) * 2048 + 2048 ≤ buffer + length at last
      omega
  · intro short extent member
    rcases (mem_readBlocks fits).mp member with before | ⟨k, -, upper, rfl⟩
    · exact absurd before List.not_mem_nil
    · change buffer ≤ buffer + k * 2048 ∧ buffer + k * 2048 + 2048 ≤ buffer + length
      omega

/-- What lies outside of every range copied to is left alone. -/
theorem readBlocks_outside {count i : Nat} {offset : UInt32} {copied : Copied} {address : Nat}
    (outside : ∀ extent ∈ (readBlocks disc size buffer count i offset copied).writes,
      address < extent.start ∨ extent.start + extent.length ≤ address) :
    (readBlocks disc size buffer count i offset copied).memory address = copied.memory address := by
  induction count generalizing i offset copied with
  | zero => rfl
  | succ count ih =>
      rw [readBlocks] at outside ⊢
      rw [ih outside]
      exact Memory.memcpy_outside _ _ (outside _ (readBlocks_grows List.mem_cons_self))

/-- Nothing in front of the buffer is written. -/
theorem readBlocks_below {count i : Nat} {offset : UInt32} {copied : Copied} {address : Nat}
    (below : address < buffer) :
    (readBlocks disc size buffer count i offset copied).memory address = copied.memory address := by
  induction count generalizing i offset copied with
  | zero => rfl
  | succ count ih =>
      rw [readBlocks, ih]
      exact Memory.memcpy_outside _ _ (.inl (Nat.lt_of_lt_of_le below (Nat.le_add_right _ _)))

/-- A file that stays within a buffer leaves everything else alone. -/
theorem readFile_outside {maxBytesToRead : UInt32} {memory : Memory} {length address : Nat}
    (fits : (wholeBlocks (readSize record maxBytesToRead memory)).toNat ≤ length)
    (outside : address < buffer ∨ buffer + length ≤ address) :
    (readFile disc record buffer maxBytesToRead memory).2.memory address = memory address := by
  refine readBlocks_outside fun extent member => ?_
  have within := readFile_within.mpr fits extent member
  unfold Extent.Within at within
  dsimp only at within
  omega

/-- What lies in front of the blocks still to come is left alone. -/
theorem readBlocks_before {count i : Nat} {offset : UInt32} {copied : Copied} {address : Nat}
    (fits : (i + count) * 2048 ≤ size.toNat) (before : address < buffer + i * 2048) :
    (readBlocks disc size buffer count i offset copied).memory address = copied.memory address := by
  induction count generalizing i offset copied with
  | zero => rfl
  | succ count ih =>
      have rest : (i + 1 + count) * 2048 ≤ size.toNat := by
        rw [Nat.add_assoc, Nat.add_comm 1]
        exact fits
      have later : address < buffer + (i + 1) * 2048 := Nat.lt_of_lt_of_le before (by omega)
      rw [readBlocks_succ fits, ih rest later]
      dsimp only
      rw [Memory.memcpy_outside _ _ (.inl before)]

/-- Every block is where the file has it; one that cannot be read is zero. -/
theorem readBlocks_inside {count i k j : Nat} {offset : UInt32} {copied : Copied}
    (fits : (i + count) * 2048 ≤ size.toNat) (more : k < count) (inside : j < 2048) :
    (readBlocks disc size buffer count i offset copied).memory (buffer + (i + k) * 2048 + j) =
      ((disc.sector (offset + UInt32.ofNat k)).getD fun _ => 0) j := by
  induction count generalizing i k offset copied with
  | zero => exact absurd more (Nat.not_lt_zero k)
  | succ count ih =>
      have rest : (i + 1 + count) * 2048 ≤ size.toNat := by
        rw [Nat.add_assoc, Nat.add_comm 1]
        exact fits
      rw [readBlocks_succ fits]
      cases k with
      | zero =>
          have first : offset + UInt32.ofNat 0 = offset := UInt32.add_zero offset
          have before : buffer + (i + 0) * 2048 + j < buffer + (i + 1) * 2048 := by omega
          have position : 0 + (buffer + (i + 0) * 2048 + j - (buffer + i * 2048)) = j := by omega
          rw [readBlocks_before rest before, first]
          dsimp only
          rw [Memory.memcpy_inside _ _ (by omega) (by omega), position]
      | succ k =>
          have later : offset + UInt32.ofNat (k + 1) = offset + 1 + UInt32.ofNat k := by
            rw [UInt32.ofNat_add, UInt32.add_comm (UInt32.ofNat k), ← UInt32.add_assoc]
            rfl
          have place : i + (k + 1) = i + 1 + k := by omega
          rw [place, later]
          exact ih rest (Nat.lt_of_succ_lt_succ more)

/-- What the blocks of a file hold, one behind the other; one that cannot be read is zero. -/
def extentBytes (disc : Disc) : (count : Nat) → (offset : UInt32) → List Byte
  | 0, _ => []
  | count + 1, offset =>
    Memory.bytes ((disc.sector offset).getD fun _ => 0) 0 2048 ++
      extentBytes disc count (offset + 1)

/-- The blocks are stored as they are. -/
theorem readBlocks_memory {count i : Nat} {offset : UInt32} {copied : Copied}
    (fits : (i + count) * 2048 ≤ size.toNat) :
    (readBlocks disc size buffer count i offset copied).memory =
      copied.memory.store (buffer + i * 2048) (extentBytes disc count offset) := by
  induction count generalizing i offset copied with
  | zero => simp [readBlocks, extentBytes]
  | succ count ih =>
      have rest : (i + 1 + count) * 2048 ≤ size.toNat := by
        rw [Nat.add_assoc, Nat.add_comm 1]
        exact fits
      have behind : buffer + (i + 1) * 2048 = buffer + i * 2048 + 2048 := by omega
      rw [readBlocks_succ fits, ih rest, Memory.memcpy_eq_store, extentBytes, Memory.store_append,
        Memory.length_bytes, behind]

/-- A file is stored as whole blocks. -/
theorem readFile_memory (maxBytesToRead : UInt32) (memory : Memory) :
    (readFile disc record buffer maxBytesToRead memory).2.memory = memory.store buffer
      (extentBytes disc ((wholeBlocks (readSize record maxBytesToRead memory)).toNat / 2048)
        record.extent) := by
  unfold readFile
  dsimp only
  rw [toNat_blockCount, readBlocks_memory (by omega), Nat.zero_mul, Nat.add_zero]

end Writes

end Cromwell.Iso9660
