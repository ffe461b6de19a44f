import Cromwell.Crypt.Sha1Stream
import Cromwell.Rom.Image

/-!
# Repairing an XBE

`xberepair` puts the ROM into a template XBE, behind 0x3000 bytes of it, fills it up to a
multiple of 16 and 16 bytes more, and brings the sizes and the hash of the only section up to
date. The size of the ROM is checked before it is filled up. What the buffers and the locals
happen to hold is given, as nothing clears them.
-/

namespace Cromwell.Rom

open Cromwell.Std Cromwell.Std.Absorbing Cromwell.Crypt

/-! ## The hash of a section -/

/-- `shax`, with what its locals happen to hold. -/
def shax (context : SHA1Context) (result : Vector Byte 20) (data : List Byte) (len : Nat) :
    Vector Byte 20 :=
  let context := sha1Reset context
  let context := sha1Input sha1Compress context (dwordBytes len)
  let context := sha1Input sha1Compress context data
  (sha1Result sha1Compress context result).2

/-- The hash of the length followed by the data. -/
theorem shax_eq (context : SHA1Context) (result : Vector Byte 20) {data : List Byte} (len : Nat)
    (short : data.length < 2 ^ 32) :
    shax context result data len = sha1 sha1Compress (dwordBytes len ++ data) := by
  have reset : Collects (sha1Reset context) (fresh sha1Initial) 0 := collects_reset context
  have room : (fresh sha1Initial : Absorbing HashState Byte).pending.length < 64 := by
    simp [fresh]
  have length : Collects (sha1Input sha1Compress (sha1Reset context) (dwordBytes len)) _ _ :=
    reset.sha1Input (dwordBytes len) room (by omega) (by simp)
  have front := @length_absorb_lt _ _ _ sha1Compress _ (dwordBytes len) room
  have whole : Collects (sha1Input sha1Compress
      (sha1Input sha1Compress (sha1Reset context) (dwordBytes len)) data) _ _ :=
    length.sha1Input data front (by simp) (by simp; omega)
  rw [← absorb_append] at whole
  have total : 0 + 8 * (dwordBytes len).length + 8 * data.length =
      0 + 8 * (dwordBytes len ++ data).length := by
    rw [List.length_append]
    omega
  rw [total] at whole
  exact sha1Result_digest sha1Compress whole result

/-! ## The repair -/

/-- `1024*1024` and `1024*1024+0x3000`, the sizes of the buffers. -/
def cromBufferSize : Nat := 0x100000
def xbeBufferSize : Nat := 0x103000

/-- Where the ROM and its size are put. -/
def romOffset : Nat := 0x3000
def romsizeOffset : Nat := 0x1084

/-- Members of `XBE_HEADER`. -/
def baseAddressOffset : Nat := 0x104
def imageSizeOffset : Nat := 0x10c
def sectionsOffset : Nat := 0x120

/-- Members of `XBE_SECTION`, and its size. -/
def virtualSizeOffset : Nat := 0x8
def fileAddressOffset : Nat := 0xc
def fileSizeOffset : Nat := 0x10
def shaHashOffset : Nat := 0x24
def sectionHeaderSize : Nat := 0x38

/-- What `malloc` and the stack happen to hold. -/
structure Unset where
  crom : Memory
  xbe : Memory
  context : SHA1Context
  shaMessageDigest : Vector Byte 20

/-- The bytes of the template that are read, as many as its size, an `unsigned int`. -/
def readXbe (xbeimage : File) : List Byte := xbeimage.take (xbeimage.length % 0x100000000)

/-- `(romsize & 0xfffffff0) + 32`. -/
def filledSize (romsize : Nat) : Nat := ((romsize &&& 0xfffffff0) + 32) % 0x100000000

/-- The offset that the header has for the first section. -/
def sectionHeader (xbe : Memory) : Nat :=
  sub32 (xbe.dword sectionsOffset) (xbe.dword baseAddressOffset)

/-- A repair of two files that have been opened. -/
structure Repair where
  unset : Unset
  xbeimage : File
  cromimage : File

namespace Repair

variable (repair : Repair)

def romsize : Nat := repair.cromimage.length % 0x100000000

/-- The template in its buffer, with the ROM and the size of it. -/
def loaded : Memory :=
  let crom := repair.unset.crom.store 0 (readRom repair.cromimage)
  -- `sizeof(xbe)` is the size of a pointer.
  let xbe := repair.unset.xbe.memset 0 0x00 4
  let xbe := xbe.store 0 (readXbe repair.xbeimage)
  let xbe := xbe.memcpy romOffset crom 0 repair.romsize
  xbe.store romsizeOffset (dwordBytes repair.romsize)

def sechdr : Nat := sectionHeader repair.loaded

/-- `xbesize`, the size of the file that is written. -/
def xbesize : Nat := (romOffset + filledSize repair.romsize) % 0x100000000

/-- With all sizes corrected. -/
def sized : Memory :=
  let size := (0x2000 + filledSize repair.romsize) % 0x100000000
  let xbe := repair.loaded.store imageSizeOffset (dwordBytes repair.xbesize)
  let xbe := xbe.store (repair.sechdr + fileSizeOffset) (dwordBytes size)
  xbe.store (repair.sechdr + virtualSizeOffset) (dwordBytes size)

def fileAddress : Nat := repair.sized.dword (repair.sechdr + fileAddressOffset)

def fileSize : Nat := repair.sized.dword (repair.sechdr + fileSizeOffset)

def digest : Vector Byte 20 :=
  shax repair.unset.context repair.unset.shaMessageDigest
    (repair.sized.bytes repair.fileAddress repair.fileSize) repair.fileSize

/-- The buffer that is written back. -/
def repaired : Memory := repair.sized.store (repair.sechdr + shaHashOffset) repair.digest.toList

/-- What is accessed: the size of the buffer, the offset and the number of bytes. -/
def accesses : List (Nat × Nat × Nat) :=
  [(cromBufferSize, 0, repair.romsize),
    (xbeBufferSize, 0, 4),
    (xbeBufferSize, 0, (readXbe repair.xbeimage).length),
    (xbeBufferSize, romOffset, repair.romsize),
    (xbeBufferSize, romsizeOffset, 4),
    (xbeBufferSize, baseAddressOffset, 4),
    (xbeBufferSize, imageSizeOffset, 4),
    (xbeBufferSize, sectionsOffset, 4),
    (xbeBufferSize, repair.sechdr, sectionHeaderSize),
    (xbeBufferSize, repair.fileAddress, repair.fileSize),
    (xbeBufferSize, 0, repair.xbesize)]

/-- Every access stays inside its buffer. -/
def InBounds : Prop := ∀ access ∈ repair.accesses, access.2.1 + access.2.2 ≤ access.1

instance : Decidable repair.InBounds := inferInstanceAs (Decidable (∀ access ∈ _, _))

end Repair

/-- Why `xberepair` writes no file that is known. -/
inductive RepairError
  /-- A file cannot be opened; `xberepair` returns 1. -/
  | cannotOpen
  /-- `Romsize too big`; `xberepair` returns 1. -/
  | romsizeTooBig
  /-- A buffer is accessed outside its block. -/
  | outOfBounds
  deriving Repr, DecidableEq

/-- `xberepair`, up to the file it writes back. -/
def xberepair (unset : Unset) (xbeimage cromimage : Option File) : Except RepairError File :=
  match cromimage with
  | none => .error .cannotOpen
  | some cromimage =>
    if cromBufferSize < cromimage.length % 0x100000000 then .error .romsizeTooBig
    else
      match xbeimage with
      | none => .error .cannotOpen
      | some xbeimage =>
        let repair : Repair := ⟨unset, xbeimage, cromimage⟩
        if repair.InBounds then .ok (repair.repaired.bytes 0 repair.xbesize)
        else .error .outOfBounds

/-! ## Templates -/

/-- The bytes of a file, in a memory. -/
def fileMemory (file : File) : Memory := blank.store 0 file

/-- A template: its header has the place of the header of a section, which is within the
first 0x1000 bytes and overlaps no member of the former that is used, and the section begins
at 0x1000. -/
structure Template (xbeimage : File) : Prop where
  header : sectionsOffset + 4 ≤ (readXbe xbeimage).length
  present : sectionHeader (fileMemory (readXbe xbeimage)) + sectionHeaderSize ≤
    (readXbe xbeimage).length
  first : sectionHeader (fileMemory (readXbe xbeimage)) + sectionHeaderSize ≤ 0x1000
  apart : sectionHeader (fileMemory (readXbe xbeimage)) + sectionHeaderSize ≤ baseAddressOffset ∨
    sectionsOffset + 4 ≤ sectionHeader (fileMemory (readXbe xbeimage))
  fileAddress : (fileMemory (readXbe xbeimage)).dword
    (sectionHeader (fileMemory (readXbe xbeimage)) + fileAddressOffset) = 0x1000

/-- What is known of a section. -/
structure XbeSection where
  fileAddress : Nat
  fileSize : Nat
  shaHash : List Byte
  deriving Repr, DecidableEq

/-- The section that the header of a file leads to. -/
def firstSection (file : File) : XbeSection where
  fileAddress := (fileMemory file).dword (sectionHeader (fileMemory file) + fileAddressOffset)
  fileSize := (fileMemory file).dword (sectionHeader (fileMemory file) + fileSizeOffset)
  shaHash := (fileMemory file).bytes (sectionHeader (fileMemory file) + shaHashOffset) 20

/-- An XBE whose sizes and hash are right, with the ROM in it. -/
structure Consistent (cromimage written : File) : Prop where
  imageSize : (fileMemory written).dword imageSizeOffset = written.length
  inside : (firstSection written).fileAddress + (firstSection written).fileSize ≤ written.length
  shaHash : (firstSection written).shaHash = (sha1 sha1Compress
    (dwordBytes (firstSection written).fileSize ++ (fileMemory written).bytes
      (firstSection written).fileAddress (firstSection written).fileSize)).toList
  rom : (fileMemory written).bytes romOffset cromimage.length = cromimage
  romsize : (fileMemory written).dword romsizeOffset = cromimage.length

section Files

variable {memory : Memory} {count x : Nat}

theorem fileMemory_bytes (inside : x < count) : fileMemory (memory.bytes 0 count) x = memory x := by
  have bound : x - 0 < (memory.bytes 0 count).length := by simpa using inside
  unfold fileMemory
  rw [Memory.store_inside _ (Nat.zero_le x) bound, Memory.getElem_bytes, Nat.sub_zero,
    Nat.zero_add]

end Files

/-! ## Sizes -/

/-- A ROM that is accepted is filled up with 17 to 32 bytes. -/
theorem filledSize_eq {romsize : Nat} (accepted : romsize ≤ cromBufferSize) :
    filledSize romsize = romsize / 16 * 16 + 32 := by
  have bounded : romsize < 2 ^ 32 := Nat.lt_of_le_of_lt accepted (by decide)
  have masked := and_highMask 32 4 (by decide) bounded
  unfold filledSize
  rw [show 0xfffffff0 = 2 ^ 32 - 2 ^ 4 from rfl, masked]
  unfold cromBufferSize at accepted
  omega

section Loading

variable {repair : Repair} {x : Nat}

namespace Repair

theorem romsize_eq (accepted : repair.cromimage.length ≤ cromBufferSize) :
    repair.romsize = repair.cromimage.length :=
  Nat.mod_eq_of_lt (Nat.lt_of_le_of_lt accepted (by decide))

theorem xbesize_eq (accepted : repair.cromimage.length ≤ cromBufferSize) :
    repair.xbesize = romOffset + (repair.cromimage.length / 16 * 16 + 32) := by
  unfold xbesize
  rw [repair.romsize_eq accepted, filledSize_eq accepted]
  unfold cromBufferSize at accepted
  unfold romOffset
  omega

/-! ## The buffer once the files have been read -/

/-- In front of the ROM there is the template, and behind it what the template has there. -/
theorem loaded_template (inside : x < (readXbe repair.xbeimage).length)
    (size : x < romsizeOffset ∨ romsizeOffset + 4 ≤ x)
    (rom : x < romOffset ∨ romOffset + repair.romsize ≤ x) :
    repair.loaded x = fileMemory (readXbe repair.xbeimage) x := by
  unfold loaded fileMemory
  rw [Memory.store_dwordBytes_outside _ size, Memory.memcpy_outside _ _ rom,
    Memory.store_inside _ (Nat.zero_le x) inside, Memory.store_inside _ (Nat.zero_le x) inside]

/-- The headers are those of the template. -/
theorem loaded_header (front : x < 0x1000) (inside : x < (readXbe repair.xbeimage).length) :
    repair.loaded x = fileMemory (readXbe repair.xbeimage) x := by
  apply loaded_template inside
  · left
    unfold romsizeOffset
    omega
  · left
    unfold romOffset
    omega

theorem loaded_dword {offset : Nat} (front : offset + 4 ≤ 0x1000)
    (inside : offset + 4 ≤ (readXbe repair.xbeimage).length) :
    repair.loaded.dword offset = (fileMemory (readXbe repair.xbeimage)).dword offset := by
  apply Memory.dword_congr
  intro k bound
  exact loaded_header (by omega) (by omega)

/-- Nothing is written behind a template except for the ROM and its size. -/
theorem loaded_unset (behind : (readXbe repair.xbeimage).length ≤ x) (front : 4 ≤ x)
    (size : x < romsizeOffset ∨ romsizeOffset + 4 ≤ x)
    (rom : x < romOffset ∨ romOffset + repair.romsize ≤ x) :
    repair.loaded x = repair.unset.xbe x := by
  unfold loaded
  rw [Memory.store_dwordBytes_outside _ size, Memory.memcpy_outside _ _ rom,
    Memory.store_outside _ (.inr (by omega)), Memory.memset_outside _ (.inr (by omega))]

/-- The ROM is in its place. -/
theorem loaded_rom (accepted : repair.cromimage.length ≤ cromBufferSize) :
    repair.loaded.bytes romOffset repair.cromimage.length = repair.cromimage := by
  have read : readRom repair.cromimage = repair.cromimage :=
    readRom_of_lt (Nat.lt_of_le_of_lt accepted (by decide))
  apply List.ext_getElem
  · simp
  · intro k _ inside
    rw [Memory.getElem_bytes]
    unfold loaded romsizeOffset romOffset
    rw [Memory.store_dwordBytes_outside _ (.inr (by omega)), repair.romsize_eq accepted,
      Memory.memcpy_inside _ _ (by omega) (by omega), read,
      Memory.store_inside _ (by omega) (by omega)]
    simp

theorem loaded_romsize (accepted : repair.cromimage.length ≤ cromBufferSize) :
    repair.loaded.dword romsizeOffset = repair.cromimage.length := by
  unfold loaded
  dsimp only
  rw [repair.romsize_eq accepted]
  exact Memory.dword_store _ _ (Nat.lt_of_le_of_lt accepted (by decide))

/-! ## The patches -/

theorem sized_other (size : x < imageSizeOffset ∨ imageSizeOffset + 4 ≤ x)
    (section_ : x < repair.sechdr + virtualSizeOffset ∨ repair.sechdr + fileSizeOffset + 4 ≤ x ∨
      repair.sechdr + fileAddressOffset ≤ x ∧ x < repair.sechdr + fileSizeOffset) :
    repair.sized x = repair.loaded x := by
  unfold virtualSizeOffset fileSizeOffset fileAddressOffset at section_
  unfold sized virtualSizeOffset fileSizeOffset
  rw [Memory.store_dwordBytes_outside _ (by omega), Memory.store_dwordBytes_outside _ (by omega),
    Memory.store_dwordBytes_outside _ size]

theorem fileSize_eq (accepted : repair.cromimage.length ≤ cromBufferSize) :
    repair.fileSize = 0x2000 + (repair.cromimage.length / 16 * 16 + 32) := by
  unfold Repair.fileSize Repair.sized
  rw [Memory.dword_store_other _ (by simp [fileSizeOffset, virtualSizeOffset]),
    repair.romsize_eq accepted, filledSize_eq accepted]
  unfold cromBufferSize at accepted
  have small : 0x2000 + (repair.cromimage.length / 16 * 16 + 32) < 0x100000000 := by omega
  rw [Nat.mod_eq_of_lt small]
  exact Memory.dword_store _ _ small

theorem repaired_other (hash : x < repair.sechdr + shaHashOffset ∨
    repair.sechdr + shaHashOffset + 20 ≤ x) : repair.repaired x = repair.sized x :=
  digest_outside _ _ hash

end Repair

end Loading

/-! ## What becomes of a template -/

namespace Template

variable {repair : Repair} (template : Template repair.xbeimage) {x : Nat}

include template

theorem sechdr_eq : repair.sechdr = sectionHeader (fileMemory (readXbe repair.xbeimage)) := by
  have header := template.header
  unfold sectionsOffset at header
  have sections : repair.loaded.dword sectionsOffset =
      (fileMemory (readXbe repair.xbeimage)).dword sectionsOffset :=
    Repair.loaded_dword (by decide) (by unfold sectionsOffset; omega)
  have base : repair.loaded.dword baseAddressOffset =
      (fileMemory (readXbe repair.xbeimage)).dword baseAddressOffset :=
    Repair.loaded_dword (by decide) (by unfold baseAddressOffset; omega)
  unfold Repair.sechdr sectionHeader
  rw [sections, base]

/-- The header of the section is in the first 0x1000 bytes, apart from what is used of the
other one. -/
theorem place : repair.sechdr + 0x38 ≤ 0x1000 ∧
    (repair.sechdr + 0x38 ≤ 0x104 ∨ 0x124 ≤ repair.sechdr) := by
  rw [template.sechdr_eq]
  exact ⟨template.first, template.apart⟩

theorem sized_imageSize : repair.sized.dword imageSizeOffset = repair.xbesize := by
  obtain ⟨-, apart⟩ := template.place
  unfold Repair.sized
  rw [Memory.dword_store_other _ (by simp [imageSizeOffset, virtualSizeOffset]; omega),
    Memory.dword_store_other _ (by simp [imageSizeOffset, fileSizeOffset]; omega)]
  exact Memory.dword_store _ _ (Nat.mod_lt _ (by decide))

theorem fileAddress_eq : repair.fileAddress = 0x1000 := by
  obtain ⟨front, apart⟩ := template.place
  have present := template.present
  rw [← template.sechdr_eq] at present
  unfold sectionHeaderSize at present
  rw [← template.fileAddress, ← template.sechdr_eq]
  apply Memory.dword_congr
  intro k bound
  rw [Repair.sized_other]
  · exact Repair.loaded_header (by unfold fileAddressOffset; omega)
      (by unfold fileAddressOffset; omega)
  · unfold imageSizeOffset fileAddressOffset
    omega
  · unfold fileAddressOffset fileSizeOffset
    omega

/-- A template is repaired within the buffers exactly if it fits in one, and so does the ROM
once it is filled up. -/
theorem inBounds_iff (accepted : repair.cromimage.length ≤ cromBufferSize) :
    repair.InBounds ↔
      repair.xbeimage.length % 0x100000000 ≤ xbeBufferSize ∧ repair.cromimage.length < 0xffff0 := by
  obtain ⟨front, -⟩ := template.place
  have read : (readXbe repair.xbeimage).length = repair.xbeimage.length % 0x100000000 := by
    unfold readXbe
    rw [List.length_take, Nat.min_eq_left (Nat.mod_le _ _)]
  have romsize := repair.romsize_eq accepted
  have xbesize := repair.xbesize_eq accepted
  have fileSize := repair.fileSize_eq accepted
  unfold cromBufferSize at accepted
  simp only [Repair.InBounds, Repair.accesses, List.forall_mem_cons, List.not_mem_nil,
    IsEmpty.forall_iff, implies_true, and_true]
  rw [read, romsize, xbesize, fileSize, template.fileAddress_eq]
  simp only [cromBufferSize, xbeBufferSize, romOffset, romsizeOffset, baseAddressOffset,
    imageSizeOffset, sectionsOffset, sectionHeaderSize]
  omega

end Template

/-! ## The file that is written -/

namespace Repair

variable (repair : Repair)

def written : File := repair.repaired.bytes 0 repair.xbesize

variable {repair} {x : Nat}

theorem written_dword {offset : Nat} (inside : offset + 4 ≤ repair.xbesize) :
    (fileMemory repair.written).dword offset = repair.repaired.dword offset :=
  Memory.dword_congr fun _ bound => fileMemory_bytes (by omega)

theorem written_bytes {offset count : Nat} (inside : offset + count ≤ repair.xbesize) :
    (fileMemory repair.written).bytes offset count = repair.repaired.bytes offset count :=
  Memory.bytes_congr fun _ bound => fileMemory_bytes (by omega)

end Repair

namespace Template

variable {repair : Repair} (template : Template repair.xbeimage)
  (accepted : repair.cromimage.length ≤ cromBufferSize) {x : Nat}

include template

/-- The hash overwrites nothing of the header that is used. -/
theorem repaired_header {offset : Nat} (lower : baseAddressOffset ≤ offset)
    (upper : offset ≤ sectionsOffset) :
    repair.repaired.dword offset = repair.sized.dword offset := by
  obtain ⟨-, apart⟩ := template.place
  unfold baseAddressOffset at lower
  unfold sectionsOffset at upper
  apply Memory.dword_congr
  intro k bound
  apply Repair.repaired_other
  unfold shaHashOffset
  omega

/-- Nor do the sizes, except for their own members. -/
theorem sized_header {offset : Nat}
    (member : offset = baseAddressOffset ∨ offset = sectionsOffset) :
    repair.sized.dword offset = repair.loaded.dword offset := by
  obtain ⟨-, apart⟩ := template.place
  unfold baseAddressOffset sectionsOffset at member
  apply Memory.dword_congr
  intro k bound
  apply Repair.sized_other
  · unfold imageSizeOffset
    omega
  · unfold virtualSizeOffset fileSizeOffset
    omega

/-- Behind the first 0x1000 bytes the hash changes nothing. -/
theorem repaired_behind (behind : 0x1000 ≤ x) : repair.repaired x = repair.sized x := by
  obtain ⟨front, -⟩ := template.place
  apply Repair.repaired_other
  unfold shaHashOffset
  omega

/-- Nor do the sizes. -/
theorem repaired_loaded (behind : 0x1000 ≤ x) : repair.repaired x = repair.loaded x := by
  obtain ⟨front, -⟩ := template.place
  rw [template.repaired_behind behind]
  apply Repair.sized_other
  · unfold imageSizeOffset
    omega
  · unfold virtualSizeOffset fileSizeOffset
    omega

include accepted

theorem sectionHeader_written : sectionHeader (fileMemory repair.written) = repair.sechdr := by
  have size := repair.xbesize_eq accepted
  unfold romOffset at size
  have base : (fileMemory repair.written).dword baseAddressOffset =
      repair.loaded.dword baseAddressOffset := by
    rw [Repair.written_dword (by unfold baseAddressOffset; omega),
      template.repaired_header (by decide) (by decide), template.sized_header (.inl rfl)]
  have sections : (fileMemory repair.written).dword sectionsOffset =
      repair.loaded.dword sectionsOffset := by
    rw [Repair.written_dword (by unfold sectionsOffset; omega),
      template.repaired_header (by decide) (by decide), template.sized_header (.inr rfl)]
  unfold Repair.sechdr sectionHeader
  rw [base, sections]

/-- The section is as it has been patched. -/
theorem firstSection_written : firstSection repair.written =
    ⟨repair.fileAddress, repair.fileSize, repair.digest.toList⟩ := by
  obtain ⟨front, -⟩ := template.place
  have size := repair.xbesize_eq accepted
  unfold romOffset at size
  have member : ∀ offset, offset ≤ fileSizeOffset →
      (fileMemory repair.written).dword (repair.sechdr + offset) =
        repair.sized.dword (repair.sechdr + offset) := by
    intro offset within
    unfold fileSizeOffset at within
    rw [Repair.written_dword (by omega)]
    apply Memory.dword_congr
    intro k bound
    apply Repair.repaired_other
    unfold shaHashOffset
    omega
  have hash : (fileMemory repair.written).bytes (repair.sechdr + shaHashOffset) 20 =
      repair.digest.toList := by
    rw [Repair.written_bytes (by unfold shaHashOffset; omega)]
    exact digest_bytes _ _
  unfold firstSection
  rw [template.sectionHeader_written accepted, member _ (by decide), member _ (Nat.le_refl _), hash]
  rfl

theorem consistent : Consistent repair.cromimage repair.written := by
  have size := repair.xbesize_eq accepted
  have fileSize := repair.fileSize_eq accepted
  have length : repair.written.length = repair.xbesize := Memory.length_bytes _ _ _
  unfold romOffset at size
  constructor
  · rw [length, Repair.written_dword (by unfold imageSizeOffset; omega),
      template.repaired_header (by decide) (by decide), template.sized_imageSize]
  · rw [template.firstSection_written accepted, length]
    simp only [template.fileAddress_eq, fileSize]
    omega
  · rw [template.firstSection_written accepted]
    simp only [template.fileAddress_eq]
    rw [Repair.written_bytes (by omega),
      Memory.bytes_congr fun k _ => template.repaired_behind (Nat.le_add_right _ k)]
    unfold Repair.digest
    rw [template.fileAddress_eq, shax_eq]
    rw [Memory.length_bytes]
    exact Memory.dword_lt _ _
  · have rom : 0x1000 ≤ romOffset := by decide
    rw [Repair.written_bytes (by unfold romOffset; omega),
      Memory.bytes_congr fun k _ => template.repaired_loaded (Nat.le_add_right_of_le rom)]
    exact Repair.loaded_rom accepted
  · have rom : 0x1000 ≤ romsizeOffset := by decide
    rw [Repair.written_dword (by unfold romsizeOffset; omega),
      Memory.dword_congr fun k _ => template.repaired_loaded (Nat.le_add_right_of_le rom)]
    exact Repair.loaded_romsize accepted

end Template

/-- A repair stays inside its buffers, and what it writes is consistent. -/
def RepairsConsistently (unset : Unset) (xbeimage cromimage : File) : Prop :=
  Repair.InBounds ⟨unset, xbeimage, cromimage⟩ ∧
    ∃ written, xberepair unset (some xbeimage) (some cromimage) = .ok written ∧
      Consistent cromimage written

section Results

variable {xbeimage cromimage : File}

/-- A ROM that is accepted is put into any template, unless a buffer is too small. -/
theorem xberepair_eq (unset : Unset) (accepted : cromimage.length ≤ cromBufferSize) :
    xberepair unset (some xbeimage) (some cromimage) =
      if Repair.InBounds ⟨unset, xbeimage, cromimage⟩ then
        .ok (Repair.written ⟨unset, xbeimage, cromimage⟩)
      else .error .outOfBounds := by
  have small : ¬cromBufferSize < cromimage.length % 0x100000000 :=
    Nat.not_lt.mpr (Nat.le_trans (Nat.mod_le _ _) accepted)
  exact if_neg small

/-- Whatever the buffers hold, a template is repaired within them and consistently exactly if
it fits in its buffer, and the ROM does so when it is filled up. -/
theorem xberepair_consistent_iff (unset : Unset) (template : Template xbeimage)
    (accepted : cromimage.length ≤ cromBufferSize) :
    RepairsConsistently unset xbeimage cromimage ↔
      xbeimage.length % 0x100000000 ≤ xbeBufferSize ∧ cromimage.length < 0xffff0 := by
  have bounds := @Template.inBounds_iff ⟨unset, xbeimage, cromimage⟩ template accepted
  constructor
  · rintro ⟨inBounds, -⟩
    exact bounds.mp inBounds
  · intro fits
    have inBounds := bounds.mpr fits
    have right := @Template.consistent ⟨unset, xbeimage, cromimage⟩ template accepted
    refine ⟨inBounds, _, ?_, right⟩
    rw [xberepair_eq unset accepted, if_pos inBounds]

end Results

/-! ## A small template -/

/-- The header of a file with that of its section behind it. -/
def smallHeader : Memory :=
  ((blank.store baseAddressOffset (dwordBytes 0x10000)).store
    sectionsOffset (dwordBytes 0x10180)).store (0x180 + fileAddressOffset) (dwordBytes 0x1000)

def smallTemplate : File := smallHeader.bytes 0 0x1b8

theorem readXbe_smallTemplate : readXbe smallTemplate = smallTemplate := by
  have length : smallTemplate.length = 0x1b8 := Memory.length_bytes _ _ _
  unfold readXbe
  rw [length]
  exact List.take_of_length_le (by rw [length])

theorem template_smallTemplate : Template smallTemplate := by
  have length : smallTemplate.length = 0x1b8 := Memory.length_bytes _ _ _
  have dword : ∀ offset, offset + 4 ≤ 0x1b8 →
      (fileMemory smallTemplate).dword offset = smallHeader.dword offset :=
    fun offset inside => Memory.dword_congr fun k bound => fileMemory_bytes (by omega)
  have place : sectionHeader (fileMemory smallTemplate) = 0x180 := by
    unfold sectionHeader
    rw [dword _ (by decide), dword _ (by decide)]
    decide
  constructor
  · rw [readXbe_smallTemplate, length]
    decide
  · rw [readXbe_smallTemplate, length, place]
    decide
  · rw [readXbe_smallTemplate, place]
    decide
  · rw [readXbe_smallTemplate, place]
    decide
  · rw [readXbe_smallTemplate, place, dword _ (by decide)]
    decide

/-- What is held happens to be zeros. -/
def zeroUnset : Unset := ⟨blank, blank, sha1Reset default, Vector.replicate 20 0⟩

/-- A ROM of a few bytes. -/
theorem xberepair_consistent_iff_smallTemplate :
    RepairsConsistently zeroUnset smallTemplate [0x55, 0xaa] ↔
      smallTemplate.length % 0x100000000 ≤ xbeBufferSize ∧ [0x55, 0xaa].length < 0xffff0 :=
  xberepair_consistent_iff zeroUnset template_smallTemplate (by decide)

/-- The largest ROM that is accepted. -/
def largestRom : File := List.replicate 0x100000 0

theorem length_largestRom : largestRom.length = 0x100000 := List.length_replicate

/-- It does not fit once it is filled up. -/
theorem not_xberepair_consistent : ¬∀ (unset : Unset) (xbeimage cromimage : File),
    Template xbeimage → cromimage.length ≤ cromBufferSize →
      RepairsConsistently unset xbeimage cromimage := by
  intro consistent
  have accepted : largestRom.length ≤ cromBufferSize := Nat.le_of_eq length_largestRom
  obtain ⟨inBounds, -⟩ := consistent zeroUnset _ _ template_smallTemplate accepted
  have fits := (@Template.inBounds_iff ⟨zeroUnset, smallTemplate, largestRom⟩
    template_smallTemplate accepted).mp inBounds
  have short : largestRom.length < 0xffff0 := fits.2
  rw [length_largestRom] at short
  exact absurd short (by decide)

end Cromwell.Rom
