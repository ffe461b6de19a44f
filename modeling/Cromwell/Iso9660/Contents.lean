import Cromwell.Iso9660.ReadFile

/-!
# What a file read from a CD is worth

The bytes read are those of the file exactly if the size taken is the size of the file and
each of its blocks can be read.
-/

namespace Cromwell.Iso9660

open Cromwell.Std

/-- The search for the path finds the record. -/
def Disc.Found (disc : Disc) (path : List Byte) (record : DirectoryRecord) : Prop :=
  disc.volume = true ∧ disc.lookup path = some record ∧ record.extent ≠ 0

/-- A byte of a file as the disc has it; in a block that cannot be read there is none. -/
def Disc.fileByte (disc : Disc) (record : DirectoryRecord) (i : Nat) : Option Byte :=
  (disc.sector (record.extent + UInt32.ofNat (i / 2048))).map fun block => block (i % 2048)

/-- The file of that path has exactly these bytes. -/
def Disc.IsFile (disc : Disc) (path : List Byte) (bytes : List Byte) : Prop :=
  ∃ record, disc.Found path record ∧ record.size.toNat = bytes.length ∧
    ∀ (i : Nat) (inside : i < bytes.length), disc.fileByte record i = some bytes[i]

/-- The blocks of the first `length` bytes of a file can all be read. -/
def Disc.Readable (disc : Disc) (record : DirectoryRecord) (length : Nat) : Prop :=
  ∀ k, k * 2048 < length → (disc.sector (record.extent + UInt32.ofNat k)).isSome

variable {disc : Disc} {path : List Byte} {record other : DirectoryRecord} {buffer : Nat}
  {maxLength : UInt32} {memory : Memory}

theorem Disc.Found.unique (found : disc.Found path record) (again : disc.Found path other) :
    record = other :=
  Option.some.inj (found.2.1.symm.trans again.2.1)

/-- The bytes of a file are determined. -/
theorem Disc.IsFile.unique {bytes others : List Byte} (file : disc.IsFile path bytes)
    (again : disc.IsFile path others) : bytes = others := by
  obtain ⟨record, found, length, item⟩ := file
  obtain ⟨_, found', length', item'⟩ := again
  obtain rfl := found.unique found'
  refine List.ext_getElem (length.symm.trans length') fun i inside inside' => ?_
  exact Option.some.inj ((item i inside).symm.trans (item' i inside'))

theorem getFile_found (found : disc.Found path record) :
    bootIso9660GetFile disc path buffer maxLength memory =
      ((readSize record maxLength memory).toInt32,
        (readFile disc record buffer maxLength memory).2) := by
  obtain ⟨volume, listed, some_extent⟩ := found
  simp only [bootIso9660GetFile, volume, listed, if_true, if_neg some_extent]
  rfl

theorem getFile_missing (missing : ∀ record, ¬disc.Found path record) :
    bootIso9660GetFile disc path buffer maxLength memory = (-1, ⟨memory, []⟩) := by
  unfold bootIso9660GetFile
  cases volume : disc.volume with
  | false => rfl
  | true =>
      cases listed : disc.lookup path with
      | none => rfl
      | some record =>
          by_cases none_extent : record.extent = 0
          · simp [none_extent]
          · exact absurd ⟨volume, listed, none_extent⟩ (missing record)

/-- Either the file is found and read, or there is none and nothing happens. -/
theorem getFile_cases (disc : Disc) (path : List Byte) (buffer : Nat) (maxLength : UInt32)
    (memory : Memory) :
    (∃ record, disc.Found path record ∧
      bootIso9660GetFile disc path buffer maxLength memory =
        ((readSize record maxLength memory).toInt32,
          (readFile disc record buffer maxLength memory).2)) ∨
    (∀ record, ¬disc.Found path record) ∧
      bootIso9660GetFile disc path buffer maxLength memory = (-1, ⟨memory, []⟩) := by
  by_cases found : ∃ record, disc.Found path record
  · obtain ⟨record, found⟩ := found
    exact .inl ⟨record, found, getFile_found found⟩
  · have missing : ∀ record, ¬disc.Found path record := not_exists.mp found
    exact .inr ⟨missing, getFile_missing missing⟩

/-! ## The size -/

/-- The limit is returned as the size only to a file that is at least as long, and only if
the limit, taken for an address, points to itself. -/
theorem readSize_eq_max_iff :
    readSize record maxLength memory = maxLength ↔
      maxLength ≤ record.size ∧ memory.dword maxLength.toNat = maxLength.toNat := by
  unfold readSize
  split
  next shorter =>
    refine ⟨fun same => ?_, fun held => absurd shorter (UInt32.not_lt.mpr held.1)⟩
    rw [same] at shorter
    exact absurd shorter (UInt32.lt_irrefl _)
  next longer =>
    rw [← UInt32.toNat_inj, UInt32.toNat_ofNat_of_lt' (Memory.dword_lt memory _)]
    exact ⟨fun same => ⟨UInt32.not_lt.mp longer, same⟩, And.right⟩

/-! ## The bytes -/

/-- The whole blocks reach behind the size. -/
theorem lt_wholeBlocks {size : UInt32} {i : Nat} (bounded : size.toNat + 2048 < 2 ^ 32)
    (inside : i < size.toNat) : i / 2048 < (wholeBlocks size >>> isofsBlockBits).toNat := by
  rw [toNat_blockCount]
  unfold wholeBlocks
  split
  next short =>
    have limit : size.toNat ≤ 2048 := UInt32.le_iff_toNat_le.mp short
    change i / 2048 < 1
    omega
  next =>
    rw [UInt32.toNat_add, toNat_blockRest]
    omega

/-- Each byte of the size is copied from its block, or is zero where that cannot be read. -/
theorem readFile_byte {i : Nat}
    (bounded : (readSize record maxLength memory).toNat + 2048 < 2 ^ 32)
    (inside : i < (readSize record maxLength memory).toNat) :
    (readFile disc record buffer maxLength memory).2.memory (buffer + i) =
      ((disc.sector (record.extent + UInt32.ofNat (i / 2048))).getD fun _ => 0) (i % 2048) := by
  have more := lt_wholeBlocks bounded inside
  have blocks : (0 + (wholeBlocks (readSize record maxLength memory) >>> isofsBlockBits).toNat) *
      2048 ≤ (wholeBlocks (readSize record maxLength memory)).toNat := by
    rw [toNat_blockCount]
    omega
  have position : buffer + (0 + i / 2048) * 2048 + i % 2048 = buffer + i := by omega
  rw [← position]
  exact readBlocks_inside blocks more (Nat.mod_lt i (by decide))

/-- What has been read is the file exactly if the size is right and its blocks can be read. -/
theorem isFile_read_iff (found : disc.Found path record)
    (bounded : (readSize record maxLength memory).toNat + 2048 < 2 ^ 32) :
    disc.IsFile path ((readFile disc record buffer maxLength memory).2.memory.bytes buffer
        (readSize record maxLength memory).toNat) ↔
      record.size = readSize record maxLength memory ∧
        disc.Readable record (readSize record maxLength memory).toNat := by
  constructor
  · rintro ⟨_, again, size, bytes⟩
    obtain rfl := found.unique again
    rw [Memory.length_bytes] at size
    refine ⟨UInt32.toNat_inj.mp size, fun k inside => ?_⟩
    have byte := bytes (k * 2048) (by rwa [Memory.length_bytes])
    unfold Disc.fileByte at byte
    rw [Nat.mul_div_cancel k (by decide)] at byte
    cases block : disc.sector (record.extent + UInt32.ofNat k) with
    | none =>
        rw [block] at byte
        cases byte
    | some _ => rfl
  · rintro ⟨size, readable⟩
    refine ⟨record, found, ?_, fun i inside => ?_⟩
    · rw [Memory.length_bytes, size]
    · rw [Memory.length_bytes] at inside
      obtain ⟨block, read⟩ := Option.isSome_iff_exists.mp (readable (i / 2048) (by omega))
      rw [Memory.getElem_bytes, readFile_byte bounded inside, Disc.fileByte, read]
      rfl

end Cromwell.Iso9660
