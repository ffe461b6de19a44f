import Cromwell.Iso9660.Recursion

/-!
# The records of a directory

A record carries its own length and has a name. The records of a directory lie in its blocks
one behind the other, none across the end of a block, with zeros behind the last one. The
search comes to them in their order.
-/

namespace Cromwell.Iso9660

open Cromwell.Std

/-! ## Names -/

/-- A name without the version at its end. -/
def dropVersion (name : List Byte) : List Byte :=
  if [0x2e, 0x3b, 0x31] <:+ name then name.take (name.length - 3)
  else if [0x3b, 0x31] <:+ name then name.take (name.length - 2)
  else name

/-- The name a file is looked for by. -/
def translated (name : List Byte) : List Byte :=
  (dropVersion name).map fun c => if c = 0x3b then 0x2e else lower c

section Names

variable {c : Byte} {name : List Byte}

/-- Only what is a letter changes. -/
theorem lower_eq_iff {mark : Byte} (low : mark < 0x41) : lower c = mark ↔ c = mark := by
  unfold lower
  by_cases letter : 0x41 ≤ c ∧ c ≤ 0x5a
  · rw [if_pos letter]
    have small : mark.toNat < 0x41 := UInt8.lt_iff_toNat_lt.mp low
    have above : 0x41 ≤ c.toNat := UInt8.le_iff_toNat_le.mp letter.1
    have below : c.toNat ≤ 0x5a := UInt8.le_iff_toNat_le.mp letter.2
    have sum : (c + 0x20).toNat = c.toNat + 0x20 := by
      rw [UInt8.toNat_add]
      exact Nat.mod_eq_of_lt (Nat.add_lt_add_right (Nat.lt_of_le_of_lt below (by decide)) 0x20)
    rw [← UInt8.toNat_inj, ← UInt8.toNat_inj, sum]
    omega
  · rw [if_neg letter]

/-- In front of a version nothing is dropped. -/
theorem dropVersion_cons (period : c :: name ≠ [0x2e, 0x3b, 0x31])
    (version : c :: name ≠ [0x3b, 0x31]) : dropVersion (c :: name) = c :: dropVersion name := by
  have with_period : [0x2e, 0x3b, 0x31] <:+ c :: name ↔ [0x2e, 0x3b, 0x31] <:+ name := by
    rw [List.suffix_cons_iff]
    exact or_iff_right (Ne.symm period)
  have with_version : [0x3b, 0x31] <:+ c :: name ↔ [0x3b, 0x31] <:+ name := by
    rw [List.suffix_cons_iff]
    exact or_iff_right (Ne.symm version)
  unfold dropVersion
  by_cases long : [0x2e, 0x3b, 0x31] <:+ name
  · have enough : 3 ≤ name.length := long.length_le
    have count : (c :: name).length - 3 = name.length - 3 + 1 := by
      rw [List.length_cons]
      omega
    rw [if_pos long, if_pos (with_period.mpr long), count, List.take_succ_cons]
  · rw [if_neg long, if_neg (mt with_period.mp long)]
    by_cases short : [0x3b, 0x31] <:+ name
    · have enough : 2 ≤ name.length := short.length_le
      have count : (c :: name).length - 2 = name.length - 2 + 1 := by
        rw [List.length_cons]
        omega
      rw [if_pos short, if_pos (with_version.mpr short), count, List.take_succ_cons]
    · rw [if_neg short, if_neg (mt with_version.mp short)]

/-- The translation is what it is meant to be, as far as a name goes up to its end. -/
theorem iso9660NameTranslate_eq (text : 0 ∉ name) :
    iso9660NameTranslate name = translated name := by
  induction name with
  | nil => rfl
  | cons c old ih =>
      have nonzero : c ≠ 0 := fun zero => text (zero ▸ List.mem_cons_self)
      have rest : 0 ∉ old := fun member => text (List.mem_cons_of_mem _ member)
      have point : lower c = 0x2e ↔ c = 0x2e := lower_eq_iff (by decide)
      have semicolon : lower c = 0x3b ↔ c = 0x3b := lower_eq_iff (by decide)
      rw [iso9660NameTranslate, if_neg nonzero]
      simp only [point, semicolon]
      by_cases period : c = 0x2e ∧ old = [0x3b, 0x31]
      · rw [if_pos period, period.1, period.2]
        rfl
      · rw [if_neg period]
        by_cases version : c = 0x3b ∧ old = [0x31]
        · rw [if_pos version, version.1, version.2]
          rfl
        · rw [if_neg version, ih rest]
          unfold translated
          rw [dropVersion_cons, List.map_cons]
          · intro same
            cases same
            exact period ⟨rfl, rfl⟩
          · intro same
            cases same
            exact version ⟨rfl, rfl⟩

end Names

/-! ## Records -/

/-- Bytes as a buffer of their own. -/
def image (bytes : List Byte) : Memory := fun k => bytes.getD k 0

/-- A directory record: it is as long as it says, and its name, of at least a byte, lies in
it. -/
structure Record where
  bytes : List Byte
  length : (dirLength (image bytes) 0).toNat = bytes.length
  named : 0 < (nameLen (image bytes) 0).toNat
  holds : 33 + (nameLen (image bytes) 0).toNat ≤ bytes.length

namespace Record

variable (record : Record)

def name : List Byte := dirName (image record.bytes) 0

/-- Where the file or directory is. -/
def target : DirectoryRecord := recordOf record.bytes

def IsDirectory : Prop := dirFlags (image record.bytes) 0 &&& isDir ≠ 0

instance : Decidable record.IsDirectory := inferInstanceAs (Decidable (_ ≠ _))

/-- A name other than those of the directory and its parent, with no slash in it. -/
structure Ordinary : Prop where
  text : 0 ∉ record.name
  whole : 0x2f ∉ record.name
  first : record.name.head? ≠ some 1

/-- What the record adds to a path. -/
def component : List Byte := 0x2f :: translated record.name

end Record

/-- The record lies at this place of a buffer. -/
def Record.LiesAt (record : Record) (buffer : Memory) (dir : Nat) : Prop :=
  ∀ k, k < record.bytes.length → buffer (dir + k) = image record.bytes k

section Fields

variable {record : Record} {buffer : Memory} {dir : Nat}

theorem Record.length_pos (record : Record) : 33 < record.bytes.length := by
  have named := record.named
  have holds := record.holds
  omega

namespace Record.LiesAt

variable (lies : record.LiesAt buffer dir)

include lies

theorem byte {k : Nat} (small : k < 34) : buffer (dir + k) = image record.bytes (0 + k) := by
  have long := record.length_pos
  rw [Nat.zero_add]
  exact lies k (by omega)

theorem dirLength_eq : (dirLength buffer dir).toNat = record.bytes.length := by
  rw [← record.length]
  exact congrArg UInt8.toNat (lies.byte (by decide : 0 < 34))

theorem dirLength_ne : dirLength buffer dir ≠ 0 := by
  have long := record.length_pos
  rw [← lies.dirLength_eq] at long
  intro zero
  rw [zero] at long
  exact absurd long (by decide)

theorem nameLen_eq : nameLen buffer dir = nameLen (image record.bytes) 0 :=
  lies.byte (by decide : 32 < 34)

theorem dirFlags_eq : dirFlags buffer dir = dirFlags (image record.bytes) 0 :=
  lies.byte (by decide : 25 < 34)

theorem dirExtent_eq : dirExtent buffer dir = record.target.extent := by
  apply congrArg UInt32.ofNat
  apply Memory.dword_congr
  intro k small
  rw [Nat.add_assoc, Nat.add_assoc]
  exact lies.byte (by omega)

theorem dirSize_eq : dirSize buffer dir = record.target.size := by
  apply congrArg UInt32.ofNat
  apply Memory.dword_congr
  intro k small
  rw [Nat.add_assoc, Nat.add_assoc]
  exact lies.byte (by omega)

theorem dirName_eq : dirName buffer dir = record.name := by
  have holds := record.holds
  unfold Record.name dirName
  rw [lies.nameLen_eq]
  apply Memory.bytes_congr
  intro k inside
  rw [Nat.add_assoc, Nat.add_assoc, Nat.zero_add]
  exact lies _ (by omega)

theorem isSpecial_iff : IsSpecial buffer dir ↔ IsSpecial (image record.bytes) 0 := by
  unfold IsSpecial
  rw [lies.byte (by decide : 33 < 34)]

theorem isSearched_iff : IsSearched buffer dir ↔ IsSearched (image record.bytes) 0 := by
  unfold IsSearched
  rw [lies.nameLen_eq, lies.dirFlags_eq]

theorem bytes_eq : buffer.bytes dir 33 = record.bytes.take 33 := by
  have long := record.length_pos
  apply List.ext_getElem?
  intro k
  by_cases inside : k < 33
  · rw [Memory.getElem?_bytes buffer dir inside, List.getElem?_take_of_lt inside, lies k (by omega),
      List.getElem?_eq_getElem (by omega)]
    exact congrArg some (List.getD_eq_getElem _ _ (by omega))
  · rw [List.getElem?_eq_none (by rw [Memory.length_bytes]; omega),
      List.getElem?_eq_none (by rw [List.length_take]; omega)]

theorem newfilename_eq (filename last : List Byte) :
    newfilename filename last buffer dir = newfilename filename last (image record.bytes) 0 := by
  unfold newfilename
  rw [lies.dirName_eq]
  simp only [lies.isSpecial_iff]
  rfl

end Record.LiesAt

end Fields

/-! ## Blocks of records -/

/-- From here to the end of a block lie these records, and zeros behind them. -/
structure Rest (buffer : Memory) (offset stop : Nat) (records : List Record) : Prop where
  fits : offset + (records.flatMap Record.bytes).length ≤ stop
  holds : ∀ k, offset + k < stop → buffer (offset + k) = image (records.flatMap Record.bytes) k

/-- A directory is on the disc as these blocks of records. -/
structure Stored (drive : Drive) (dir : DirectoryRecord) (blocks : List (List Record)) : Prop where
  size : dir.size.toNat = 2048 * blocks.length
  sectors : ∀ k (inside : k < blocks.length), ∃ data,
    drive (dir.extent + UInt32.ofNat k) = some data ∧ Rest data 0 2048 blocks[k]

section Blocks

variable {record : Record} {records : List Record} {buffer : Memory} {offset stop : Nat}

theorem image_append_left {first rest : List Byte} {k : Nat} (inside : k < first.length) :
    image (first ++ rest) k = image first k :=
  List.getD_append _ _ _ _ inside

theorem image_append_right {first rest : List Byte} {k : Nat} :
    image (first ++ rest) (first.length + k) = image rest k := by
  unfold image
  rw [List.getD_append_right _ _ _ _ (Nat.le_add_right _ k), Nat.add_sub_cancel_left]

theorem Rest.head (rest : Rest buffer offset stop (record :: records)) :
    record.LiesAt buffer offset := by
  have fits := rest.fits
  rw [List.flatMap_cons, List.length_append] at fits
  intro k inside
  rw [rest.holds k (by omega), List.flatMap_cons, image_append_left inside]

theorem Rest.tail (rest : Rest buffer offset stop (record :: records)) :
    Rest buffer (offset + record.bytes.length) stop records := by
  have fits := rest.fits
  rw [List.flatMap_cons, List.length_append] at fits
  refine ⟨by omega, ?_⟩
  intro k inside
  rw [Nat.add_assoc, rest.holds _ (by omega), List.flatMap_cons, image_append_right]

/-- Behind the last record the length of a record is zero. -/
theorem Rest.atEnd (rest : Rest buffer offset stop []) (inside : offset < stop) :
    dirLength buffer offset = 0 :=
  rest.holds 0 inside

/-- What a pass makes of a record. -/
def passRecord (search filename : List Byte) (record : Record) (last : List Byte) :
    Pass (List Byte) (Record × List Byte) :=
  let path := newfilename filename last (image record.bytes) 0
  if path = search ∨ IsSearched (image record.bytes) 0 ∧ Continues search path then
    .leave (record, path)
  else .next path

/-- A record that the search leaves at, and where it lies. -/
def endAt (search : List Byte) (dir : Nat) (path : List Byte) : ScanEnd :=
  if path = search then .found dir else .descend dir path

variable {search filename last : List Byte} {readSize place : UInt32}

theorem fst_of_passRecord {left : Record × List Byte}
    (leaves : passRecord search filename record last = .leave left) : left.1 = record := by
  unfold passRecord at leaves
  dsimp only at leaves
  split at leaves
  · cases leaves
    rfl
  · cases leaves

theorem scanRecord_liesAt (search filename last : List Byte)
    (lies : record.LiesAt buffer place.toNat) (inside : place < readSize) :
    scanRecord search filename buffer readSize ⟨place, last⟩ =
      match passRecord search filename record last with
      | .next path => .next ⟨place + (dirLength buffer place.toNat).toUInt32, path⟩
      | .leave (_, path) => .leave (endAt search place.toNat path) := by
  have has_record : (Scan.mk place last).HasRecord buffer readSize :=
    ⟨inside, lies.dirLength_ne⟩
  have path : (Scan.mk place last).path filename buffer =
      newfilename filename last (image record.bytes) 0 := lies.newfilename_eq filename last
  have leads : Leads search filename buffer readSize ⟨place, last⟩ ↔
      newfilename filename last (image record.bytes) 0 = search ∨
        IsSearched (image record.bytes) 0 ∧
          Continues search (newfilename filename last (image record.bytes) 0) := by
    unfold Leads Matches Descends
    rw [path]
    change (_ ∧ _) ∨ (_ ∧ IsSearched buffer place.toNat ∧ _) ↔ _
    rw [lies.isSearched_iff, ← and_or_left]
    exact and_iff_right has_record
  rw [scanRecord_eq, if_pos inside]
  unfold passRecord
  dsimp only
  by_cases leaves : Leads search filename buffer readSize ⟨place, last⟩
  · rw [if_pos leaves, if_pos (leads.mp leaves), leadEnd, path]
    rfl
  · rw [if_neg leaves, if_neg (mt leads.mpr leaves), Scan.advance, if_neg lies.dirLength_ne, path]

/-- Where the scan is after some records that it has not left at. -/
def Passes (search filename : List Byte) (buffer : Memory) (readSize : UInt32) (scan : Scan)
    (stop : Nat) (path : List Byte) : Prop :=
  ∃ passes place, place.toNat = stop ∧
    whileLoop (scanRecord search filename buffer readSize) passes scan = .next ⟨place, path⟩

/-- The scan leaves at a record that lies in the directory. -/
def LeavesAt (search filename : List Byte) (buffer : Memory) (readSize : UInt32) (scan : Scan)
    (left : Record × List Byte) : Prop :=
  ∃ passes dir, left.1.LiesAt buffer dir ∧
    whileLoop (scanRecord search filename buffer readSize) passes scan =
      .leave (endAt search dir left.2)

/-- Passes in front of a scan. -/
theorem LeavesAt.after {scan next : Scan} {left : Record × List Byte} {passes : Nat}
    (leaves : LeavesAt search filename buffer readSize next left)
    (passed : whileLoop (scanRecord search filename buffer readSize) passes scan = .next next) :
    LeavesAt search filename buffer readSize scan left := by
  obtain ⟨more, dir, lies, ended⟩ := leaves
  refine ⟨passes + more, dir, lies, ?_⟩
  rw [whileLoop_add, passed]
  exact ended

theorem Passes.after {scan next : Scan} {path : List Byte} {passes : Nat}
    (further : Passes search filename buffer readSize next stop path)
    (passed : whileLoop (scanRecord search filename buffer readSize) passes scan = .next next) :
    Passes search filename buffer readSize scan stop path := by
  obtain ⟨more, place, at_stop, ended⟩ := further
  refine ⟨passes + more, place, at_stop, ?_⟩
  rw [whileLoop_add, passed]
  exact ended

/-- Where records lead a scan, they lead one to that comes to it. -/
theorem ends_after {scan next : Scan} {passes : Nat}
    {pass : Pass (List Byte) (Record × List Byte)}
    (passed : whileLoop (scanRecord search filename buffer readSize) passes scan = .next next)
    (ends : pass.Ends (Passes search filename buffer readSize next stop)
      (LeavesAt search filename buffer readSize next)) :
    pass.Ends (Passes search filename buffer readSize scan stop)
      (LeavesAt search filename buffer readSize scan) :=
  ends.mono (fun _ further => further.after passed) fun _ leaves => leaves.after passed

/-- The scan takes the records of a block as they come. -/
theorem Rest.scan (search filename last : List Byte) {i : Nat} (whole : readSize.toNat % 2048 = 0)
    (within : 2048 * (i + 1) ≤ readSize.toNat)
    (rest : Rest buffer place.toNat (2048 * (i + 1)) records) (lower : 2048 * i ≤ place.toNat) :
    (listLoop (passRecord search filename) records last).Ends
      (Passes search filename buffer readSize ⟨place, last⟩ (2048 * (i + 1)))
      (LeavesAt search filename buffer readSize ⟨place, last⟩) := by
  have bound := readSize.toNat_lt
  induction records generalizing place last with
  | nil =>
      have fits : place.toNat + 0 ≤ 2048 * (i + 1) := rest.fits
      rcases Nat.eq_or_lt_of_le fits with full | short
      · exact ⟨0, place, full, rfl⟩
      · -- Zeros take the scan to the next block.
        have inside : place < readSize := UInt32.lt_iff_toNat_lt.mpr (by omega)
        have next : (nextBlock place).toNat = 2048 * (i + 1) := by
          rw [toNat_nextBlock (by omega)]
          omega
        refine ⟨1, nextBlock place, next, ?_⟩
        have zero : dirLength buffer place.toNat = 0 := rest.atEnd short
        rw [whileLoop_succ, scanRecord, if_pos inside]
        dsimp only
        rw [if_pos zero]
        rfl
  | cons record records ih =>
      have lies := rest.head
      have long := record.length_pos
      have fits := rest.fits
      rw [List.flatMap_cons, List.length_append] at fits
      have inside : place < readSize := UInt32.lt_iff_toNat_lt.mpr (by omega)
      have pass := scanRecord_liesAt search filename last lies inside
      rw [listLoop]
      cases passed : passRecord search filename record last with
      | leave left =>
          rw [passed] at pass
          refine ⟨1, place.toNat, ?_, ?_⟩
          · rw [fst_of_passRecord passed]
            exact lies
          · rw [whileLoop_succ, pass]
            rfl
      | next path =>
          rw [passed] at pass
          have next : (place + (dirLength buffer place.toNat).toUInt32).toNat =
              place.toNat + record.bytes.length := by
            rw [toNat_add_length (by omega), lies.dirLength_eq]
          have one : whileLoop (scanRecord search filename buffer readSize) 1 ⟨place, last⟩ =
              .next ⟨place + (dirLength buffer place.toNat).toUInt32, path⟩ := by
            rw [whileLoop_succ, pass]
            rfl
          have tail := rest.tail
          rw [← next] at tail
          exact ends_after one (ih path tail (by omega))

/-- The blocks of a directory from one on are in the buffer. -/
def Laid (buffer : Memory) : Nat → List (List Record) → Prop
  | _, [] => True
  | i, block :: blocks =>
    Rest buffer (2048 * i) (2048 * (i + 1)) block ∧ Laid buffer (i + 1) blocks

/-- The scan takes block after block. -/
theorem Laid.scan {i : Nat} {blocks : List (List Record)} (laid : Laid buffer i blocks)
    (size : readSize.toNat = 2048 * (i + blocks.length)) (start : place.toNat = 2048 * i) :
    (listLoop (passRecord search filename) blocks.flatten last).Ends
      (Passes search filename buffer readSize ⟨place, last⟩ readSize.toNat)
      (LeavesAt search filename buffer readSize ⟨place, last⟩) := by
  induction blocks generalizing i place last with
  | nil => exact ⟨0, place, start.trans size.symm, rfl⟩
  | cons block blocks ih =>
      rw [List.length_cons] at size
      obtain ⟨rest, later⟩ := laid
      rw [← start] at rest
      have whole : readSize.toNat % 2048 = 0 := by omega
      have within : 2048 * (i + 1) ≤ readSize.toNat := by omega
      have first := rest.scan search filename last whole within (Nat.le_of_eq start.symm)
      rw [List.flatten_cons, listLoop_append]
      generalize listLoop (passRecord search filename) block last = passed at first ⊢
      cases passed with
      | leave left => exact first
      | next path =>
          obtain ⟨passes, next, at_stop, passed⟩ := first
          exact ends_after passed (ih later (by omega) at_stop)

end Blocks

/-! ## Directories on the disc -/

section Directories

variable {drive : Drive} {dir : DirectoryRecord} {blocks : List (List Record)}

/-- What lies in front of the sectors still to come is left alone. -/
theorem readSectors_before {count i k : Nat} {offset : UInt32} {buffer : Memory}
    (before : k < 2048 * i) : readSectors drive count i offset buffer k = buffer k := by
  induction count generalizing i offset buffer with
  | zero => rfl
  | succ count ih =>
      rw [readSectors, ih (by omega)]
      cases drive offset with
      | none => rfl
      | some data => exact Memory.memcpy_outside _ _ (.inl (by omega))

/-- Every sector that can be read is where the directory has it. -/
theorem readSectors_inside {count i k j : Nat} {offset : UInt32} {buffer data : Memory}
    (more : k < count) (inside : j < 2048)
    (read : drive (offset + UInt32.ofNat k) = some data) :
    readSectors drive count i offset buffer (2048 * (i + k) + j) = data j := by
  induction count generalizing i k offset buffer with
  | zero => exact absurd more (Nat.not_lt_zero k)
  | succ count ih =>
      rw [readSectors]
      cases k with
      | zero =>
          have first : offset + UInt32.ofNat 0 = offset := UInt32.add_zero offset
          rw [first] at read
          rw [readSectors_before (by omega), read]
          have position : 0 + (2048 * (i + 0) + j - i * 2048) = j := by omega
          dsimp only
          rw [Memory.memcpy_inside _ _ (by omega) (by omega), position]
      | succ k =>
          have later : offset + UInt32.ofNat (k + 1) = offset + 1 + UInt32.ofNat k := by
            rw [UInt32.ofNat_add, UInt32.add_comm (UInt32.ofNat k), ← UInt32.add_assoc]
            rfl
          have place : i + (k + 1) = i + 1 + k := by omega
          rw [later] at read
          rw [place]
          exact ih (Nat.lt_of_succ_lt_succ more) read

theorem laid_of_rests {buffer : Memory} {i : Nat}
    (rests : ∀ k (inside : k < blocks.length),
      Rest buffer (2048 * (i + k)) (2048 * (i + k + 1)) blocks[k]) : Laid buffer i blocks := by
  induction blocks generalizing i with
  | nil => trivial
  | cons block blocks ih =>
      refine ⟨rests 0 (Nat.zero_lt_succ _), ih ?_⟩
      intro k inside
      have later := rests (k + 1) (Nat.succ_lt_succ inside)
      have place : i + (k + 1) = i + 1 + k := by omega
      rw [place] at later
      exact later

/-- A directory that is on the disc is in the buffer it is read to. -/
theorem Stored.laid (stored : Stored drive dir blocks) (buffer : Memory) :
    Laid (directory drive dir.extent dir.size buffer) 0 blocks := by
  apply laid_of_rests
  intro k inside
  obtain ⟨data, read, rest⟩ := stored.sectors k inside
  have count : (dir.size >>> isofsBlockBits).toNat = blocks.length := by
    rw [toNat_blockCount, stored.size]
    omega
  have fits := rest.fits
  refine ⟨by omega, ?_⟩
  intro j upper
  rw [directory, count, readSectors_inside inside (by omega) read, ← rest.holds j (by omega),
    Nat.zero_add]

/-- The scan of such a directory comes to its end, or it leaves at one of the records. -/
theorem Stored.scan (stored : Stored drive dir blocks) (search filename : List Byte)
    (buffer : Memory) :
    (listLoop (passRecord search filename) blocks.flatten []).Ends
      (fun _ => ∃ passes, whileLoop (scanRecord search filename
        (directory drive dir.extent dir.size buffer) dir.size) passes ⟨0, []⟩ = .leave .atEnd)
      (LeavesAt search filename (directory drive dir.extent dir.size buffer) dir.size ⟨0, []⟩) := by
  have size : dir.size.toNat = 2048 * (0 + blocks.length) := by
    rw [Nat.zero_add]
    exact stored.size
  have start : (0 : UInt32).toNat = 2048 * 0 := rfl
  apply ((stored.laid buffer).scan size start).mono
  · rintro path ⟨passes, place, at_end, passed⟩
    have atEnd : ¬place < dir.size := by
      rw [UInt32.lt_iff_toNat_lt, at_end]
      exact Nat.lt_irrefl _
    refine ⟨passes + 1, ?_⟩
    rw [whileLoop_last, passed]
    change scanRecord _ _ _ _ _ = _
    rw [scanRecord_eq, if_neg atEnd]
  · exact fun left leaves => leaves

end Directories

end Cromwell.Iso9660
