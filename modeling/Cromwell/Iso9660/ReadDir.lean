import Cromwell.Iso9660.ReadFile
import Cromwell.Std.LiveBlocks
import Cromwell.Std.Walk

/-!
# Searching the directories of a CD

`read_dir` scans a directory for a path, rebuilding the path of every record from its name.
A record with the path looked for is copied; one whose path a slash follows is searched in
turn, if it is a directory with a name longer than a byte. The buffers of a directory are
given back only if its scan comes to its end.
-/

namespace Cromwell.Iso9660

open Cromwell.Std

def isDir : Byte := 2

/-- What reading a sector gives: its 2048 bytes, or `none` if the drive reports an error. -/
abbrev Drive := UInt32 → Option Memory

/-! ## Records in a buffer -/

section Fields

variable (buffer : Memory) (dir : Nat)

def dirLength : Byte := buffer dir
def dirExtent : UInt32 := UInt32.ofNat (buffer.dword (dir + 2))
def dirSize : UInt32 := UInt32.ofNat (buffer.dword (dir + 10))
def dirFlags : Byte := buffer (dir + 25)
def nameLen : Byte := buffer (dir + 32)
def dirName : List Byte := buffer.bytes (dir + 33) (nameLen buffer dir).toNat

/-- The name begins with one of the bytes that stand for the directory and its parent. -/
def IsSpecial : Prop := buffer (dir + 33) = 0 ∨ buffer (dir + 33) = 1

instance : Decidable (IsSpecial buffer dir) := inferInstanceAs (Decidable (_ ∨ _))

/-- A directory as the search takes it: its name is longer than a byte. -/
def IsSearched : Prop := dirFlags buffer dir &&& isDir ≠ 0 ∧ 1 < nameLen buffer dir

instance : Decidable (IsSearched buffer dir) := inferInstanceAs (Decidable (_ ∧ _))

end Fields

def lower (c : Byte) : Byte := if 0x41 ≤ c ∧ c ≤ 0x5a then c + 0x20 else c

/-- The name a record is known by. Only the end of a name can be a version: it is compared
where so many characters are left. -/
def iso9660NameTranslate : List Byte → List Byte
  | [] => []
  | c :: old =>
    if c = 0 then []
    else if lower c = 0x2e ∧ old = [0x3b, 0x31] then []
    else if lower c = 0x3b ∧ old = [0x31] then []
    else (if lower c = 0x3b then 0x2e else lower c) :: iso9660NameTranslate old

/-! ## The scan of a directory -/

/-- Where a scan stands, and what `newfilename` holds: nothing before the first record with
an ordinary name. -/
structure Scan where
  offset : UInt32
  last : List Byte

inductive ScanEnd where
  | atEnd
  | found (dir : Nat)
  | descend (dir : Nat) (newfilename : List Byte)

/-- The path of a record. A record with a special name is taken for the one before it. -/
def newfilename (filename last : List Byte) (buffer : Memory) (dir : Nat) : List Byte :=
  if IsSpecial buffer dir then last
  else filename ++ 0x2f :: iso9660NameTranslate (dirName buffer dir)

/-- The path looked for goes on behind another one. -/
def Continues (search path : List Byte) : Prop :=
  path.length < search.length ∧ search.take path.length = path ∧ search[path.length]? = some 0x2f

instance (search path : List Byte) : Decidable (Continues search path) :=
  inferInstanceAs (Decidable (_ ∧ _))

/-- Behind the records of a block the next block begins. -/
def nextBlock (offset : UInt32) : UInt32 := (offset + 2048) &&& ~~~2047

/-- One record. Strings without zeros that agree up to the end of the longer are equal. -/
def scanRecord (search filename : List Byte) (buffer : Memory) (readSize : UInt32) (scan : Scan) :
    Pass Scan ScanEnd :=
  if scan.offset < readSize then
    let dir := scan.offset.toNat
    if dirLength buffer dir = 0 then .next { scan with offset := nextBlock scan.offset }
    else
      let path := newfilename filename scan.last buffer dir
      if path = search then .leave (.found dir)
      else if IsSearched buffer dir ∧ Continues search path then .leave (.descend dir path)
      else .next ⟨scan.offset + (dirLength buffer dir).toUInt32, path⟩
  else .leave .atEnd

/-! ## The search -/

/-- The blocks of a directory. One that cannot be read leaves what the buffer holds. -/
def readSectors (drive : Drive) : (count i : Nat) → (offset : UInt32) → Memory → Memory
  | 0, _, _, buffer => buffer
  | count + 1, i, offset, buffer =>
    readSectors drive count (i + 1) (offset + 1)
      (match drive offset with
      | none => buffer
      | some data => buffer.memcpy (i * 2048) data 0 2048)

/-- A directory in the block that is there for it. -/
def directory (drive : Drive) (extent readSize : UInt32) (buffer : Memory) : Memory :=
  readSectors drive (readSize >>> isofsBlockBits).toNat 0 extent buffer

/-- What a search leaves behind: the sector it returns, the record it copies, the blocks that
are live then, and how many directories deep it has gone. -/
structure DirSearch where
  sect : UInt32
  dir_found : Option (List Byte)
  blocks : LiveBlocks
  depth : Nat

/-- Both the calls and the passes of each are bounded by `fuel`. `room` says which requests
for a buffer are met, `garbage` what a block holds before. -/
def readDir (drive : Drive) (room : UInt32 → Bool) (garbage : Nat → Memory)
    (search : List Byte) : (fuel : Nat) → (extent readSize : UInt32) → (filename : List Byte) →
      LiveBlocks → Option DirSearch
  | 0, _, _, _, _ => none
  | fuel + 1, extent, readSize, filename, blocks =>
    if room readSize = false then some ⟨0, none, blocks, 0⟩
    else
      let buffer := directory drive extent readSize (garbage blocks.next)
      let held := blocks.malloc.malloc
      match whileLoop (scanRecord search filename buffer readSize) (fuel + 1) ⟨0, []⟩ with
      | .next _ => none
      | .leave .atEnd =>
        some ⟨0, none, (held.free blocks.next).free blocks.malloc.next, 0⟩
      | .leave (.found dir) => some ⟨dirExtent buffer dir, some (buffer.bytes dir 33), held, 0⟩
      | .leave (.descend dir path) =>
        (readDir drive room garbage search fuel (dirExtent buffer dir) (dirSize buffer dir)
          path held).map fun found => { found with depth := found.depth + 1 }

/-- A copied record. -/
def recordOf (bytes : List Byte) : DirectoryRecord :=
  let dir : Memory := fun k => bytes.getD k 0
  ⟨dirExtent dir 0, dirSize dir 0⟩

/-- The disc as the search finds it. -/
def Drive.disc (drive : Drive) (room : UInt32 → Bool) (garbage : Nat → Memory) (fuel : Nat)
    (blocks : LiveBlocks) : Disc where
  volume := (drive 16).isSome
  lookup path := (drive 16).bind fun pvd =>
    (readDir drive room garbage path fuel (dirExtent pvd 156) (dirSize pvd 156) [] blocks).bind
      fun found => found.dir_found.map recordOf
  sector := drive

/-- `BootIso9660GetFile` with the blocks it holds: `pvd` and `dir` are given back only if
there is nothing to read. -/
def getFileBlocks (drive : Drive) (room : UInt32 → Bool) (garbage : Nat → Memory) (fuel : Nat)
    (path : List Byte) (buffer : Nat) (maxLength : UInt32) (memory : Memory)
    (blocks : LiveBlocks) : Option (Int32 × Copied × LiveBlocks) :=
  let held := blocks.malloc.malloc
  match drive 16 with
  | none => some (-1, ⟨memory, []⟩, (held.free blocks.next).free blocks.malloc.next)
  | some pvd =>
    (readDir drive room garbage path fuel (dirExtent pvd 156) (dirSize pvd 156) [] held).map
      fun (found : DirSearch) =>
        if 0 < found.sect then
          let dir := recordOf (found.dir_found.getD [])
          let tmpbuff := found.blocks.malloc
          let (bytesRead, copied) := readFile (drive.disc room garbage fuel held) dir buffer
            maxLength memory
          (bytesRead.toInt32, copied, tmpbuff.free found.blocks.next)
        else
          (-1, ⟨memory, []⟩, (found.blocks.free blocks.next).free blocks.malloc.next)

/-! ## What one directory contributes -/

section Directories

variable {drive : Drive} {room : UInt32 → Bool} {garbage : Nat → Memory}
  {search filename : List Byte} {extent readSize : UInt32} {blocks : LiveBlocks}
  {found : DirSearch} {fuel : Nat}

/-- How a search ends in the directory it starts in, by the end of its scan. -/
inductive Searched (drive : Drive) (room : UInt32 → Bool) (garbage : Nat → Memory)
    (search : List Byte) (fuel : Nat) (buffer : Memory) (blocks : LiveBlocks) :
    ScanEnd → DirSearch → Prop where
  | atEnd : Searched drive room garbage search fuel buffer blocks .atEnd
      ⟨0, none, (blocks.malloc.malloc.free blocks.next).free blocks.malloc.next, 0⟩
  | found (dir : Nat) : Searched drive room garbage search fuel buffer blocks (.found dir)
      ⟨dirExtent buffer dir, some (buffer.bytes dir 33), blocks.malloc.malloc, 0⟩
  | descend (dir : Nat) (path : List Byte) (inner : DirSearch)
      (below : readDir drive room garbage search fuel (dirExtent buffer dir)
        (dirSize buffer dir) path blocks.malloc.malloc = some inner) :
      Searched drive room garbage search fuel buffer blocks (.descend dir path)
        { inner with depth := inner.depth + 1 }

theorem readDir_no_room (full : room readSize = false) :
    readDir drive room garbage search (fuel + 1) extent readSize filename blocks =
      some ⟨0, none, blocks, 0⟩ := by
  rw [readDir, if_pos full]

/-- A search ends as the scan of its first directory does. -/
theorem readDir_eq_some (met : room readSize = true) :
    readDir drive room garbage search (fuel + 1) extent readSize filename blocks = some found ↔
      ∃ ended, whileLoop (scanRecord search filename
          (directory drive extent readSize (garbage blocks.next)) readSize) (fuel + 1) ⟨0, []⟩ =
          .leave ended ∧
        Searched drive room garbage search fuel
          (directory drive extent readSize (garbage blocks.next)) blocks ended found := by
  have enough : ¬room readSize = false := by simp [met]
  rw [readDir, if_neg enough]
  dsimp only
  generalize directory drive extent readSize (garbage blocks.next) = buffer
  cases passed : whileLoop (scanRecord search filename buffer readSize) (fuel + 1) ⟨0, []⟩ with
  | next scan => simp
  | leave ended =>
      simp only [Pass.leave.injEq, exists_eq_left']
      cases ended with
      | atEnd =>
          constructor
          · intro same
            cases same
            exact .atEnd
          · intro searched
            cases searched
            rfl
      | found dir =>
          constructor
          · intro same
            cases same
            exact .found dir
          · intro searched
            cases searched
            rfl
      | descend dir path =>
          rw [Option.map_eq_some_iff]
          constructor
          · rintro ⟨inner, below, rfl⟩
            exact .descend dir path inner below
          · intro searched
            cases searched with
            | descend _ _ inner below => exact ⟨inner, below, rfl⟩

/-- What holds of a search that has no room, and of one whose scan has ended if it holds of
the searches below, holds of every search that returns. -/
theorem readDir_induction {P : LiveBlocks → DirSearch → Prop}
    (no_room : ∀ blocks, P blocks ⟨0, none, blocks, 0⟩)
    (step : ∀ {fuel : Nat} {buffer : Memory} {blocks : LiveBlocks} {ended : ScanEnd}
      {found : DirSearch}, (∀ {extent readSize : UInt32} {filename : List Byte}
        {blocks : LiveBlocks} {inner : DirSearch}, readDir drive room garbage search fuel extent
          readSize filename blocks = some inner → P blocks inner) →
      Searched drive room garbage search fuel buffer blocks ended found → P blocks found)
    (returned : readDir drive room garbage search fuel extent readSize filename blocks =
      some found) : P blocks found := by
  induction fuel generalizing extent readSize filename blocks found with
  | zero => cases returned
  | succ fuel ih =>
      by_cases met : room readSize = true
      · obtain ⟨ended, -, searched⟩ := (readDir_eq_some met).mp returned
        exact step ih searched
      · have full : room readSize = false := by simpa using met
        rw [readDir_no_room full] at returned
        cases returned
        exact no_room blocks

/-- More fuel does not change what a search finds. -/
theorem readDir_add
    (returned : readDir drive room garbage search fuel extent readSize filename blocks =
      some found) (more : Nat) :
    readDir drive room garbage search (fuel + more) extent readSize filename blocks =
      some found := by
  induction fuel generalizing extent readSize filename blocks found with
  | zero => cases returned
  | succ fuel ih =>
      have order : fuel + 1 + more = fuel + more + 1 := by omega
      rw [order]
      by_cases met : room readSize = true
      · rw [readDir_eq_some met] at returned ⊢
        obtain ⟨ended, left, searched⟩ := returned
        refine ⟨ended, ?_, ?_⟩
        · rw [← order]
          exact whileLoop_leave_add left more
        · cases searched with
          | atEnd => exact .atEnd
          | found dir => exact .found dir
          | descend dir path inner below => exact .descend dir path inner (ih below)
      · have full : room readSize = false := by simpa using met
        rw [readDir_no_room full] at returned ⊢
        exact returned

/-- Enough fuel for the scan of a directory and for what is searched below of it. -/
theorem readDir_of_left (met : room readSize = true) {passes : Nat} {ended : ScanEnd}
    (left : whileLoop (scanRecord search filename
      (directory drive extent readSize (garbage blocks.next)) readSize) passes ⟨0, []⟩ =
      .leave ended)
    (searched : Searched drive room garbage search fuel
      (directory drive extent readSize (garbage blocks.next)) blocks ended found) :
    readDir drive room garbage search (fuel + passes + 1) extent readSize filename blocks =
      some found := by
  have order : fuel + passes + 1 = passes + (fuel + 1) := by omega
  refine (readDir_eq_some met).mpr ⟨ended, ?_, ?_⟩
  · rw [order]
    exact whileLoop_leave_add left (fuel + 1)
  · cases searched with
    | atEnd => exact .atEnd
    | found dir => exact .found dir
    | descend dir path inner below => exact .descend dir path inner (readDir_add below passes)

/-- The record that is copied has the sector that is returned. -/
theorem recordOf_extent (buffer : Memory) (dir : Nat) :
    (recordOf (buffer.bytes dir 33)).extent = dirExtent buffer dir := by
  have bytes : ∀ k, k < 4 → (buffer.bytes dir 33).getD (0 + 2 + k) 0 = buffer (dir + 2 + k) := by
    intro k small
    have inside : 0 + 2 + k < 33 := by omega
    rw [List.getD_eq_getElem?_getD, Memory.getElem?_bytes buffer dir inside, Option.getD_some]
    congr 1
    omega
  exact congrArg UInt32.ofNat (Memory.dword_congr bytes)

/-- A search either copies a record and returns its sector, or returns none. -/
theorem readDir_sect
    (returned : readDir drive room garbage search fuel extent readSize filename blocks =
      some found) :
    found.sect = (found.dir_found.map recordOf).elim 0 DirectoryRecord.extent := by
  refine readDir_induction (P := fun _ found =>
    found.sect = (found.dir_found.map recordOf).elim 0 DirectoryRecord.extent) (fun _ => rfl) ?_
    returned
  intro fuel buffer blocks ended found ih searched
  cases searched with
  | atEnd => rfl
  | found dir => exact (recordOf_extent _ dir).symm
  | descend dir path inner below =>
      change inner.sect = _
      exact ih below

end Directories

end Cromwell.Iso9660
