import Cromwell.Boot.LoadReactOS
import Cromwell.Fatx.FileContents
import Cromwell.Iso9660.Contents

/-!
# Where an accepted header comes from

The search for a header goes over the first part of the load area, however much of it has
been read from the file. A header that reaches behind the file is made of what was there
before, or of the rest of the last block, and is accepted as well.
-/

namespace Cromwell.Boot

open Cromwell.Std Cromwell.Lib Cromwell.Fatx Cromwell.Iso9660

/-! ## Headers -/

/-- The magic number and a checksum that fits. -/
def HeaderAt (memory : Memory) (place : Nat) : Prop :=
  memory.dword place = multibootHeaderMagic ∧
    (memory.dword place + memory.dword (place + 4) + memory.dword (place + 8)) % 2 ^ 32 = 0

instance decidableHeaderAt (memory : Memory) (place : Nat) : Decidable (HeaderAt memory place) :=
  inferInstanceAs (Decidable (_ ∧ _))

/-- A place the search comes by. -/
def Searched (offset : Nat) : Prop := offset < multibootSearchareaLen ∧ offset % 4 = 0

/-- A header of so many bytes is wholly in a file. -/
def HasHeader (size : Nat) (file : List Byte) : Prop :=
  ∃ offset, Searched offset ∧ offset + size ≤ file.length ∧ HeaderAt (fun k => file.getD k 0) offset

/-- Something is found exactly if there is a header at a place searched. -/
theorem checkMultibootHeader_ne_none_iff {memory : Memory} {buffer : Nat} :
    checkMultibootHeader memory buffer ≠ none ↔
      ∃ offset, Searched offset ∧ HeaderAt memory (buffer + offset) := by
  rw [Option.ne_none_iff_isSome, checkMultibootHeader, List.find?_isSome]
  constructor
  · rintro ⟨place, member, header⟩
    obtain ⟨k, inside, rfl⟩ := List.mem_map.mp member
    have bound : k < multibootSearchareaLen / 4 := List.mem_range.mp inside
    refine ⟨4 * k, ⟨?_, Nat.mul_mod_right 4 k⟩, of_decide_eq_true header⟩
    unfold multibootSearchareaLen at bound ⊢
    omega
  · rintro ⟨offset, ⟨inside, aligned⟩, header⟩
    have place : 4 * (offset / 4) = offset := by omega
    refine ⟨buffer + offset, List.mem_map.mpr ⟨offset / 4, ?_, by rw [place]⟩,
      decide_eq_true header⟩
    unfold multibootSearchareaLen at inside ⊢
    exact List.mem_range.mpr (by omega)

theorem headerAt_congr {memory other : Memory} {place place' : Nat}
    (same : ∀ k, k < 12 → memory (place + k) = other (place' + k)) :
    HeaderAt memory place ↔ HeaderAt other place' := by
  have word : ∀ offset, offset ≤ 8 →
      memory.dword (place + offset) = other.dword (place' + offset) := by
    intro offset bound
    refine Memory.dword_congr fun k four => ?_
    have byte := same (offset + k) (by omega)
    rwa [← Nat.add_assoc, ← Nat.add_assoc] at byte
  have first := word 0 (by omega)
  rw [Nat.add_zero, Nat.add_zero] at first
  rw [HeaderAt, HeaderAt, first, word 4 (by omega), word 8 (by omega)]

/-! ## Files -/

/-- What a loader has stored at the load area, and how long the file is. -/
structure Reading where
  stored : List Byte
  length : Nat

/-- The bytes of the file among them. -/
def Reading.file (reading : Reading) : List Byte := reading.stored.take reading.length

/-- A place searched has a header that is not wholly in the file. -/
def StrayHeader (size : Nat) (memory : Memory) (reading : Reading) : Prop :=
  ∃ offset, Searched offset ∧ reading.file.length < offset + size ∧
    HeaderAt (memory.store freeldrLoadArea reading.stored) (freeldrLoadArea + offset)

/-- A boot loader on one of the media, with what its loader is given. -/
inductive ReactOSFile where
  | native (grub : Grub) (szGrub : Memory) (szPath : List Byte) (drive part : Byte)
  | fatx (disk : Disk) (arrays : Arrays) (partition : FATXPartition) (fuel : Nat)
      (szPath : List Byte)
  | cd (disc : Disc) (szPath : List Byte)

def ReactOSFile.load : ReactOSFile → Program Ram (Option OptMultiboot)
  | native grub szGrub szPath drive part => loadReactOSNative grub szGrub szPath drive part
  | fatx disk arrays partition fuel szPath => loadReactOSFATX disk arrays partition fuel szPath
  | cd disc szPath => loadReactOSCD disc szPath

/-- The memory the file is read into. Only the loader for a CD clears the area. -/
def ReactOSFile.prepared (memory : Memory) : ReactOSFile → Memory
  | native .. => memory
  | fatx .. => memory
  | cd .. => memory.memset freeldrLoadArea 0 freeldrMaxSize

/-- What is read of a file, if it is found and can be read. A file on a CD that is as long as
the area is read as if it had no length. -/
def ReactOSFile.reading : ReactOSFile → Option Reading
  | native grub szGrub szPath _ _ =>
    let file := grub (szGrub.store 4 (strncpy szPath szPath.length))
    let bytes := (file.read file.filemax).2
    if file.nRet ≠ 1 then none else some ⟨bytes, bytes.length⟩
  | fatx disk arrays partition fuel szPath =>
    (fileBytes disk arrays.ba arrays.stack arrays.loadStack partition fuel szPath
      ⟨[], 0, 0, 0⟩).map fun bytes => ⟨bytes, bytes.length⟩
  | cd disc szPath =>
    match disc.volume, disc.lookup szPath with
    | true, some record =>
      let size := if record.size.toNat < freeldrMaxSize then record.size else 0
      if record.extent = 0 then none
      else some ⟨extentBytes disc ((wholeBlocks size).toNat / 2048) record.extent,
        record.size.toNat⟩
    | _, _ => none

section Readings

variable {size : Nat} {memory : Memory} {reading : Reading}

/-- In the file a header is the same as in the area. -/
theorem headerAt_file (members : 12 ≤ size) {offset : Nat}
    (inside : offset + size ≤ reading.file.length) :
    HeaderAt (memory.store freeldrLoadArea reading.stored) (freeldrLoadArea + offset) ↔
      HeaderAt (fun k => reading.file.getD k 0) offset := by
  apply headerAt_congr
  intro k bound
  have inFile : offset + k < reading.file.length := by omega
  have inStored : offset + k < reading.stored.length := by
    rw [Reading.file, List.length_take] at inFile
    omega
  have place : freeldrLoadArea + offset + k - freeldrLoadArea = offset + k := by omega
  rw [Memory.store_inside _ (by omega) (by omega)]
  simp only [place, List.getD_eq_getElem _ _ inFile]
  simp only [Reading.file, List.getElem_take]

/-- What is found is in the file, or it is stray. -/
theorem found_iff (members : 12 ≤ size) :
    checkMultibootHeader (memory.store freeldrLoadArea reading.stored) freeldrLoadArea ≠ none ↔
      HasHeader size reading.file ∨ StrayHeader size memory reading := by
  rw [checkMultibootHeader_ne_none_iff]
  constructor
  · rintro ⟨offset, searched, header⟩
    rcases Nat.lt_or_ge reading.file.length (offset + size) with behind | inside
    · exact .inr ⟨offset, searched, behind, header⟩
    · exact .inl ⟨offset, searched, inside, (headerAt_file members inside).mp header⟩
  · rintro (⟨offset, searched, inside, header⟩ | ⟨offset, searched, -, header⟩)
    · exact ⟨offset, searched, (headerAt_file members inside).mpr header⟩
    · exact ⟨offset, searched, header⟩

/-- A file that is longer than the area searched has no room for a stray header. -/
theorem not_strayHeader_of_long (long : multibootSearchareaLen + size ≤ reading.file.length) :
    ¬StrayHeader size memory reading := by
  rintro ⟨offset, ⟨bound, -⟩, behind, -⟩
  omega

/-- For a file on a CD it makes no difference what has been in the area before. -/
theorem strayHeader_cd_iff (other : Memory) (disc : Disc) (szPath : List Byte) :
    StrayHeader size ((ReactOSFile.cd disc szPath).prepared memory) reading ↔
      StrayHeader size ((ReactOSFile.cd disc szPath).prepared other) reading := by
  refine exists_congr fun offset => and_congr_right fun searched => and_congr_right fun _ => ?_
  obtain ⟨bound, -⟩ := searched
  apply headerAt_congr
  intro k inner
  unfold multibootSearchareaLen at bound
  unfold Memory.store ReactOSFile.prepared
  unfold freeldrLoadArea freeldrMaxSize
  dsimp only
  rw [Memory.memset_inside _ (by omega) (by omega), Memory.memset_inside _ (by omega) (by omega)]

end Readings

/-! ## What the loaders read -/

section Loads

variable {ram : Ram} {cut : Ram → Prop}

/-- What a load has to leave behind. -/
def ReactOSFile.Loaded (file : ReactOSFile) (memory : Memory) (result : Option OptMultiboot)
    (after : Ram) : Prop :=
  (file.reading = none → result = none) ∧
    ∀ reading, file.reading = some reading →
      after.memory = (file.prepared memory).store freeldrLoadArea reading.stored ∧
        (result ≠ none ↔ checkMultibootHeader after.memory freeldrLoadArea ≠ none)

theorem accept_ensures (uBufferSize uBootDevice : UInt32) :
    (accept uBufferSize uBootDevice).Ensures ram cut fun result after => after = ram ∧
      (result ≠ none ↔ checkMultibootHeader after.memory freeldrLoadArea ≠ none) := by
  unfold accept
  rw [Program.ensures_update]
  refine ⟨rfl, ?_⟩
  cases checkMultibootHeader ram.memory freeldrLoadArea with
  | none => simp
  | some _ => simp

theorem loadReactOSNative_loaded (grub : Grub) (szGrub : Memory) (szPath : List Byte)
    (drive part : Byte) :
    (loadReactOSNative grub szGrub szPath drive part).Ensures ram cut
      ((ReactOSFile.native grub szGrub szPath drive part).Loaded ram.memory) := by
  unfold loadReactOSNative ReactOSFile.Loaded ReactOSFile.reading ReactOSFile.prepared
  dsimp only
  rw [Program.ensures_ite]
  refine ⟨fun failed => ?_, fun opened => ?_⟩
  · rw [if_pos failed]
    exact ⟨fun _ => rfl, nofun⟩
  · rw [if_neg opened, Program.ensures_bind, ensures_grubRead]
    refine (accept_ensures _ _).mono (fun _ held => held) ?_
    rintro result after ⟨rfl, checked⟩
    refine ⟨nofun, fun reading same => ?_⟩
    cases same
    exact ⟨rfl, checked⟩

theorem loadReactOSFATX_loaded (disk : Disk) (arrays : Arrays) (partition : FATXPartition)
    (fuel : Nat) (szPath : List Byte) :
    (loadReactOSFATX disk arrays partition fuel szPath).Ensures ram
      (fun _ => (ReactOSFile.fatx disk arrays partition fuel szPath).reading = none)
      ((ReactOSFile.fatx disk arrays partition fuel szPath).Loaded ram.memory) := by
  unfold loadReactOSFATX ReactOSFile.Loaded ReactOSFile.reading ReactOSFile.prepared
  rw [Program.ensures_bind, ensures_loadFixed rfl]
  obtain ⟨fails, loads⟩ := loadFATXFilefixed_reads _ (rfl : loadFATXFilefixed disk arrays.ba
    arrays.stack arrays.loadStack freeldrLoadArea (some partition) fuel szPath ⟨[], 0, 0, 0⟩
    ram.memory = _)
  generalize loadFATXFilefixed disk arrays.ba arrays.stack arrays.loadStack freeldrLoadArea
    (some partition) fuel szPath ⟨[], 0, 0, 0⟩ ram.memory = run at fails loads ⊢
  dsimp only
  cases given : fileBytes disk arrays.ba arrays.stack arrays.loadStack partition fuel szPath
      ⟨[], 0, 0, 0⟩ with
  | none =>
      refine ⟨fun _ => rfl, fun success ended => ?_⟩
      rw [Program.ensures_ite]
      refine ⟨fun _ => ⟨fun _ => rfl, nofun⟩, fun succeeded => ?_⟩
      rw [Bool.not_eq_false] at succeeded
      rw [succeeded] at ended
      exact absurd ended (fails given)
  | some bytes =>
      obtain ⟨result, memory⟩ := loads bytes given
      rw [result]
      refine ⟨nofun, fun success ended => ?_⟩
      cases ended
      rw [if_neg Bool.noConfusion]
      refine (accept_ensures _ _).mono (fun _ held => held) ?_
      rintro result after ⟨rfl, checked⟩
      refine ⟨nofun, fun reading same => ?_⟩
      cases same
      exact ⟨memory, checked⟩

theorem reading_cd_found {disc : Disc} {szPath : List Byte} {record : DirectoryRecord}
    (found : disc.Found szPath record) :
    (ReactOSFile.cd disc szPath).reading =
      some ⟨extentBytes disc ((wholeBlocks
        (if record.size.toNat < freeldrMaxSize then record.size else 0)).toNat / 2048)
          record.extent, record.size.toNat⟩ := by
  obtain ⟨volume, listed, some_extent⟩ := found
  simp [ReactOSFile.reading, volume, listed, some_extent]

theorem reading_cd_missing {disc : Disc} {szPath : List Byte}
    (missing : ∀ record, ¬disc.Found szPath record) :
    (ReactOSFile.cd disc szPath).reading = none := by
  unfold ReactOSFile.reading
  dsimp only
  split
  · next record volume listed =>
    by_cases no_extent : record.extent = 0
    · exact if_pos no_extent
    · exact absurd ⟨volume, listed, no_extent⟩ (missing record)
  · rfl

theorem not_toInt32_neg {size : UInt32} (short : size.toNat < 2 ^ 31) : ¬size.toInt32 < 0 := by
  intro negative
  have signed : size.toBitVec.toInt < 0 := Int32.lt_iff_toInt_lt.mp negative
  rw [BitVec.toInt_eq_toNat_of_lt (by change 2 * size.toNat < 2 ^ 32; omega)] at signed
  omega

/-- The area is cleared, the address of the limit with it. -/
theorem readSize_cleared (record : DirectoryRecord) (memory : Memory) :
    readSize record (UInt32.ofNat freeldrMaxSize)
        (memory.memset freeldrLoadArea 0 freeldrMaxSize) =
      if record.size.toNat < freeldrMaxSize then record.size else 0 := by
  have limit : (UInt32.ofNat freeldrMaxSize).toNat = freeldrMaxSize := rfl
  have zero : (memory.memset freeldrLoadArea 0 freeldrMaxSize).dword freeldrMaxSize = 0 := by
    apply Memory.dword_memset_zero
    · decide
    · decide
  unfold readSize
  simp only [UInt32.lt_iff_toNat_lt, limit, zero]
  rfl

theorem loadReactOSCD_loaded (disc : Disc) (szPath : List Byte) :
    (loadReactOSCD disc szPath).Ensures ram cut
      ((ReactOSFile.cd disc szPath).Loaded ram.memory) := by
  unfold loadReactOSCD
  rw [Program.ensures_bind, ensures_clear, Program.ensures_bind, ensures_getFile, memory_move]
  rcases getFile_cases disc szPath freeldrLoadArea (UInt32.ofNat freeldrMaxSize)
    (ram.memory.memset freeldrLoadArea 0 freeldrMaxSize) with
    ⟨record, found, read⟩ | ⟨missing, read⟩
  · have sign : ¬(if record.size.toNat < freeldrMaxSize then record.size else 0).toInt32 < 0 := by
      apply not_toInt32_neg
      split
      · next short => exact Nat.lt_trans short (by decide)
      · decide
    rw [read]
    dsimp only
    rw [readSize_cleared, if_neg sign]
    refine (accept_ensures _ _).mono (fun _ held => held) ?_
    rintro result after ⟨rfl, checked⟩
    unfold ReactOSFile.Loaded ReactOSFile.prepared
    rw [reading_cd_found found]
    refine ⟨nofun, fun reading same => ?_⟩
    cases same
    refine ⟨?_, checked⟩
    unfold Ram.after
    dsimp only
    rw [readFile_memory, readSize_cleared]
  · rw [read]
    dsimp only
    rw [if_pos (by decide)]
    refine ⟨fun _ => rfl, fun reading given => ?_⟩
    rw [reading_cd_missing missing] at given
    cases given

/-- A load stores what is read, and its result is told by the search of the area. -/
theorem ReactOSFile.load_ensures (file : ReactOSFile) (ram : Ram) :
    file.load.Ensures ram (fun _ => file.reading = none) (file.Loaded ram.memory) := by
  cases file with
  | native grub szGrub szPath drive part =>
      exact loadReactOSNative_loaded grub szGrub szPath drive part
  | fatx disk arrays partition fuel szPath =>
      exact loadReactOSFATX_loaded disk arrays partition fuel szPath
  | cd disc szPath => exact loadReactOSCD_loaded disc szPath

/-- A file that can be read is accepted exactly if there is a header in the area then. -/
theorem ReactOSFile.accepted_iff {file : ReactOSFile} {reading : Reading}
    (given : file.reading = some reading) (ram : Ram) :
    (∃ multiboot after, file.load ram = .leave (some multiboot, after)) ↔
      checkMultibootHeader ((file.prepared ram.memory).store freeldrLoadArea reading.stored)
        freeldrLoadArea ≠ none := by
  have readable : ∀ after : Ram, file.reading = none → False := by
    intro _ unread
    rw [given] at unread
    cases unread
  have returns : file.load.Ensures ram (fun _ => False) (file.Loaded ram.memory) :=
    (file.load_ensures ram).mono readable fun _ _ held => held
  obtain ⟨result, after, ended, -, stores⟩ := returns.returns
  obtain ⟨stored, checked⟩ := stores reading given
  rw [stored] at checked
  rw [← checked, ended]
  cases result with
  | none => exact iff_of_false (fun ⟨_, _, same⟩ => by cases same) fun some => some rfl
  | some multiboot => exact iff_of_true ⟨multiboot, after, rfl⟩ nofun

end Loads

/-- A file is only accepted for a header of its own if and only if it has one or the area
searched has none. -/
theorem accepted_header_in_file_iff (file : ReactOSFile) (ram : Ram) (size : Nat)
    (members : 12 ≤ size) :
    (∀ multiboot after, file.load ram = .leave (some multiboot, after) →
        ∃ reading, file.reading = some reading ∧ HasHeader size reading.file) ↔
      ∀ reading, file.reading = some reading → HasHeader size reading.file ∨
        ¬StrayHeader size (file.prepared ram.memory) reading := by
  constructor
  · intro own reading given
    by_cases stray : StrayHeader size (file.prepared ram.memory) reading
    · obtain ⟨multiboot, after, ended⟩ :=
        (file.accepted_iff given ram).mpr ((found_iff members).mpr (.inr stray))
      obtain ⟨reading', again, header⟩ := own multiboot after ended
      rw [given] at again
      cases again
      exact .inl header
    · exact .inr stray
  · intro clean multiboot after ended
    cases given : file.reading with
    | none =>
        obtain ⟨unread, -⟩ := (file.load_ensures ram).of_returned ended
        cases unread given
    | some reading =>
        have found := (file.accepted_iff given ram).mp ⟨multiboot, after, ended⟩
        rcases (found_iff members).mp found with header | stray
        · exact ⟨reading, rfl, header⟩
        · exact ⟨reading, rfl, (clean reading given).resolve_right (not_not.mpr stray)⟩

/-! ## An empty file -/

/-- A file with nothing in it, on any drive. -/
def emptyFile : ReactOSFile :=
  .native (fun _ => ⟨1, 0, 0, fun _ => (0, []), fun _ => Nat.zero_le _⟩) (fun _ => 0)
    (text "/freeldr.sys") 0 0

/-- A header that was left in the area. -/
def staleRam : Ram :=
  ⟨Memory.store (fun _ => 0) freeldrLoadArea
    ([multibootHeaderMagic, 0, 2 ^ 32 - multibootHeaderMagic].flatMap dwordBytes), [], []⟩

theorem accepted_header_in_file_iff_empty :
    (∀ multiboot after, emptyFile.load staleRam = .leave (some multiboot, after) →
        ∃ reading, emptyFile.reading = some reading ∧ HasHeader 32 reading.file) ↔
      ∀ reading, emptyFile.reading = some reading → HasHeader 32 reading.file ∨
        ¬StrayHeader 32 (emptyFile.prepared staleRam.memory) reading :=
  accepted_header_in_file_iff emptyFile staleRam 32 (by decide)

/-- The header that was left is accepted for the file. -/
theorem empty_file_accepted :
    ¬∀ (file : ReactOSFile) (ram : Ram) (multiboot : OptMultiboot) (after : Ram),
      file.load ram = .leave (some multiboot, after) →
        ∃ reading, file.reading = some reading ∧ HasHeader 12 reading.file := by
  intro own
  have given : emptyFile.reading = some ⟨[], 0⟩ := rfl
  have found : checkMultibootHeader
      ((emptyFile.prepared staleRam.memory).store freeldrLoadArea []) freeldrLoadArea ≠ none :=
    checkMultibootHeader_ne_none_iff.mpr ⟨0, ⟨by decide, rfl⟩, by decide +kernel⟩
  obtain ⟨multiboot, after, ended⟩ := (emptyFile.accepted_iff given staleRam).mpr found
  obtain ⟨reading, again, offset, -, inside, -⟩ := own emptyFile staleRam multiboot after ended
  rw [given] at again
  cases again
  exact absurd inside (by simp [Reading.file])

end Cromwell.Boot
