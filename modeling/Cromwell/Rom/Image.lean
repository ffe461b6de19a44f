import Cromwell.Std.Memory

/-!
# The image builder

`romcopy` joins the two-stage loader and the compressed Cromwell ROM into a 256
kbyte image and a 1 Mbyte image. Both carry, at the offset the loader binary
stores at `0x40`, a checksum structure that tells the loader where the ROM lies.
A buffer access outside its `malloc`ed block has no defined outcome, so a build
that would make one produces no image.
-/

namespace Cromwell.Rom

open Cromwell.Std

/-- The hash functions of `sha1.c` and `md5.c`; nothing here depends on which they are. -/
structure Hashes where
  sha1 : List Byte → Vector Byte 20
  md5 : List Byte → Vector Byte 16

/-- The contents of a file. -/
abbrev File := List Byte

/-- Subtraction of two `unsigned int`. -/
def sub32 (left right : Nat) : Nat := (left + (0x100000000 - right)) % 0x100000000

theorem sub32_of_le {left right : Nat} (ordered : right ≤ left) (bounded : left < 0x100000000) :
    sub32 left right = left - right := by
  unfold sub32
  omega

/-- An underflow wraps to a value no buffer has room for. -/
theorem sub32_of_lt {left right : Nat} (ordered : left < right) (bounded : right < 0x100000000) :
    sub32 left right = 0x100000000 - (right - left) := by
  unfold sub32
  omega

theorem sub32_sub32 {total first second : Nat} (ordered : first + second ≤ total)
    (bounded : total < 0x100000000) :
    sub32 (sub32 total first) second = total - first - second := by
  unfold sub32
  omega

/-- `256*1024`, the size of a flash bank. -/
def bankSize : Nat := 0x40000

/-! ## Stored digests -/

section Digest

variable (memory : Memory) (digest : Vector Byte 20) {address x : Nat}

theorem digest_outside (outside : x < address ∨ address + 20 ≤ x) :
    memory.store address digest.toList x = memory x :=
  Memory.store_outside _ (by rwa [Vector.length_toList])

theorem digest_bytes : (memory.store address digest.toList).bytes address 20 = digest.toList := by
  have stored := Memory.bytes_store memory address digest.toList
  rwa [Vector.length_toList] at stored

end Digest

/-! ## The checksum structure -/

/-- `struct Checksumstruct`. -/
structure Checksumstruct where
  checksum : List Byte
  sizeRamcopy : Nat
  compressedImageStart : Nat
  compressedImageSize : Nat
  biossizeType : Nat
  deriving Repr, DecidableEq

namespace Checksumstruct

/-- The structure at a position of an image. -/
def read (image : Memory) (position : Nat) : Checksumstruct where
  checksum := image.bytes position 20
  sizeRamcopy := image.dword (position + 20)
  compressedImageStart := image.dword (position + 24)
  compressedImageSize := image.dword (position + 28)
  biossizeType := image.dword (position + 32)

/-- `memcpy` of the structure into an image. -/
def write (fields : Checksumstruct) (image : Memory) (position : Nat) : Memory :=
  ((((image.store position fields.checksum).store
    (position + 20) (dwordBytes fields.sizeRamcopy)).store
    (position + 24) (dwordBytes fields.compressedImageStart)).store
    (position + 28) (dwordBytes fields.compressedImageSize)).store
    (position + 32) (dwordBytes fields.biossizeType)

/-- A structure whose members fit their C types. -/
structure WellFormed (fields : Checksumstruct) : Prop where
  checksum : fields.checksum.length = 20
  sizeRamcopy : fields.sizeRamcopy < 2 ^ 32
  compressedImageStart : fields.compressedImageStart < 2 ^ 32
  compressedImageSize : fields.compressedImageSize < 2 ^ 32
  biossizeType : fields.biossizeType < 2 ^ 32

theorem read_wellFormed (image : Memory) (position : Nat) : (read image position).WellFormed where
  checksum := Memory.length_bytes _ _ _
  sizeRamcopy := Memory.dword_lt _ _
  compressedImageStart := Memory.dword_lt _ _
  compressedImageSize := Memory.dword_lt _ _
  biossizeType := Memory.dword_lt _ _

theorem write_outside {fields : Checksumstruct} (wellFormed : fields.WellFormed) (image : Memory)
    {position x : Nat} (outside : x < position ∨ position + 36 ≤ x) :
    fields.write image position x = image x := by
  have length := wellFormed.checksum
  rw [write, Memory.store_dwordBytes_outside _ (by omega),
    Memory.store_dwordBytes_outside _ (by omega), Memory.store_dwordBytes_outside _ (by omega),
    Memory.store_dwordBytes_outside _ (by omega), Memory.store_outside _ (by omega)]

section ReadBack

variable {fields : Checksumstruct} (wellFormed : fields.WellFormed) (image : Memory)
  (position : Nat)

include wellFormed

theorem write_sizeRamcopy :
    (fields.write image position).dword (position + 20) = fields.sizeRamcopy := by
  rw [write, Memory.dword_store_other, Memory.dword_store_other, Memory.dword_store_other,
    Memory.dword_store _ _ wellFormed.sizeRamcopy] <;> simp only [length_dwordBytes] <;> omega

theorem write_compressedImageStart :
    (fields.write image position).dword (position + 24) = fields.compressedImageStart := by
  rw [write, Memory.dword_store_other, Memory.dword_store_other,
    Memory.dword_store _ _ wellFormed.compressedImageStart] <;>
    simp only [length_dwordBytes] <;> omega

theorem write_compressedImageSize :
    (fields.write image position).dword (position + 28) = fields.compressedImageSize := by
  rw [write, Memory.dword_store_other, Memory.dword_store _ _ wellFormed.compressedImageSize]
  simp only [length_dwordBytes]
  omega

theorem write_biossizeType :
    (fields.write image position).dword (position + 32) = fields.biossizeType := by
  rw [write, Memory.dword_store _ _ wellFormed.biossizeType]

end ReadBack

end Checksumstruct

/-! ## The identifier block -/

/-- `sprintf(Name, "Cromwell %s", CROMWELL_VERSION)`, with its terminator. -/
def biosName : List Byte :=
  ("Cromwell 2.41-dev".toList.map fun letter => UInt8.ofNat letter.toNat) ++ [0]

/-- `writeBiosIdentifier`: the last 64 bytes of an image name it and hash the rest. -/
def writeBiosIdentifier (hashes : Hashes) (cromimage : Memory) (biosSize : Nat) : Memory :=
  let header := biosSize - 64
  let magic := cromimage.store header [0x41, 0x55, 0x54, 0x4f]
  let version := magic.set (header + 4) 1
  let size := version.store (header + 12) (dwordBytes biosSize)
  let name := size.store (header + 16) biosName
  let xbox := name.set (header + 5) 0x7f
  let encoder := xbox.set (header + 6) 0x03
  encoder.store (header + 48) (hashes.md5 (encoder.bytes 0 (biosSize - 16))).toList

theorem writeBiosIdentifier_below (hashes : Hashes) (cromimage : Memory) {biosSize x : Nat}
    (below : x < biosSize - 64) :
    writeBiosIdentifier hashes cromimage biosSize x = cromimage x := by
  rw [writeBiosIdentifier, Memory.store_outside _ (.inl (by omega)),
    Memory.set_other _ (by omega), Memory.set_other _ (by omega),
    Memory.store_outside _ (.inl (by omega)), Memory.store_outside _ (.inl (by omega)),
    Memory.set_other _ (by omega), Memory.store_outside _ (.inl (by omega))]

/-! ## The builder -/

/-- A zeroed buffer. -/
def blank : Memory := fun _ => 0

/-- The bytes dumped over the cleared end of the loader image. -/
def gdtBytes : List (Nat × Byte) :=
  [(0x3ffcf, 0xfc), (0x3ffd0, 0xea), (0x3ffd2, 0x10), (0x3ffd3, 0xfc), (0x3ffd4, 0xff),
    (0x3ffd5, 0x08), (0x3ffd7, 0x90),
    (0x3ffe0, 0xff), (0x3ffe1, 0xff), (0x3ffe5, 0x9b), (0x3ffe6, 0xcf), (0x3ffe8, 0xff),
    (0x3ffe9, 0xff), (0x3ffed, 0x93), (0x3ffee, 0xcf),
    (0x3fff4, 0x18), (0x3fff5, 0x00), (0x3fff6, 0xd8), (0x3fff7, 0xff), (0x3fff8, 0xff),
    (0x3fff9, 0xff)]

/-- The loader image with the GDT in place of its top 512 bytes. -/
def dumpGdt (loaderimage : Memory) : Memory :=
  gdtBytes.foldl (fun image entry => image.set entry.1 entry.2)
    ((loaderimage.memset 0x3fe00 0x90 512).memset 0x3ffd0 0x00 32)

theorem foldl_set_other {entries : List (Nat × Byte)} {x : Nat}
    (elsewhere : ∀ entry ∈ entries, x ≠ entry.1) (image : Memory) :
    entries.foldl (fun image entry => image.set entry.1 entry.2) image x = image x := by
  induction entries generalizing image with
  | nil => rfl
  | cons entry rest ih =>
      have first := elsewhere entry List.mem_cons_self
      rw [List.foldl_cons, ih fun later member => elsewhere later (List.mem_cons_of_mem _ member)]
      exact Memory.set_other _ first

/-- Bytes set at different addresses all stay. -/
theorem foldl_set_mem {entries : List (Nat × Byte)} (apart : (entries.map Prod.fst).Nodup)
    {entry : Nat × Byte} (member : entry ∈ entries) (image : Memory) :
    entries.foldl (fun image entry => image.set entry.1 entry.2) image entry.1 = entry.2 := by
  induction entries generalizing image with
  | nil => exact absurd member List.not_mem_nil
  | cons first rest ih =>
      obtain ⟨fresh, apart⟩ := List.nodup_cons.mp apart
      rw [List.foldl_cons]
      rcases List.mem_cons.mp member with rfl | member
      · have elsewhere : ∀ later ∈ rest, entry.1 ≠ later.1 := fun later behind same =>
          fresh (same ▸ List.mem_map_of_mem behind)
        rw [foldl_set_other elsewhere, Memory.set_same]
      · exact ih apart member _

/-- The GDT replaces the top of the loader image only. -/
theorem dumpGdt_below {loaderimage : Memory} {x : Nat} (below : x < 0x3fe00) :
    dumpGdt loaderimage x = loaderimage x := by
  have inTop : ∀ entry ∈ gdtBytes, 0x3fe00 ≤ entry.1 := by decide
  rw [dumpGdt, foldl_set_other fun entry member => (lt_of_lt_of_le below (inTop entry member)).ne,
    Memory.memset_outside _ (by omega), Memory.memset_outside _ (by omega)]

/-- Every byte of the GDT is in place. -/
theorem dumpGdt_entry (loaderimage : Memory) {entry : Nat × Byte} (member : entry ∈ gdtBytes) :
    dumpGdt loaderimage entry.1 = entry.2 :=
  foldl_set_mem (by decide) member _

/-- Where the compressed image starts: 16-byte aligned, at least 256 bytes behind the loader. -/
def compressedImageStart (bootloaderpos sizeRamcopy : Nat) : Nat :=
  let temp := (bootloaderpos + sizeRamcopy) % 0x100000000
  let temp := temp &&& 0xfffffff0
  let temp := (temp + 0x10) % 0x100000000
  (temp + 0x100) % 0x100000000

/-- Both images. -/
structure Images where
  flash256 : Memory
  flash1024 : Memory

/-- Why `romcopy` writes no image. -/
inductive BuildError where
  /-- A file cannot be opened; `romcopy` returns 1. -/
  | cannotOpen
  /-- A buffer would be accessed outside its block. -/
  | outOfBounds
  deriving Repr, DecidableEq

/-- The same place, computed without overflow. -/
def alignedStart (bootloaderpos sizeRamcopy : Nat) : Nat :=
  (bootloaderpos + sizeRamcopy) / 16 * 16 + 0x110

theorem compressedImageStart_lt (bootloaderpos sizeRamcopy : Nat) :
    compressedImageStart bootloaderpos sizeRamcopy < 2 ^ 32 :=
  Nat.mod_lt _ (by omega)

/-- What `romcopy` knows once both files are read: the patched loader image, the
structure in it with the place and the size of the ROM filled in, and the bytes
of the ROM. -/
structure Layout where
  loaderimage : Memory
  bootloaderpos : Nat
  bootloaderstruct : Checksumstruct
  crom : List Byte
  wellFormed : bootloaderstruct.WellFormed
  placed : bootloaderstruct.compressedImageStart =
    compressedImageStart bootloaderpos bootloaderstruct.sizeRamcopy
  measured : bootloaderstruct.compressedImageSize = crom.length

/-- The loader file in its buffer, with the GDT dumped over its end. -/
def readLoader (blimage : File) : Memory := dumpGdt (blank.store 0 (blimage.take bankSize))

/-- The bytes of the ROM file that are read: as many as its size, an `unsigned int`. -/
def readRom (cromimage : File) : List Byte := cromimage.take (cromimage.length % 0x100000000)

theorem length_readRom (cromimage : File) :
    (readRom cromimage).length = cromimage.length % 0x100000000 := by
  simp only [readRom, List.length_take]
  exact Nat.min_eq_left (Nat.mod_le _ _)

theorem readRom_of_lt {cromimage : File} (small : cromimage.length < 0x100000000) :
    readRom cromimage = cromimage := by
  rw [readRom, Nat.mod_eq_of_lt small, List.take_length]

/-- The layout of an image for two files. -/
def layout (blimage cromimage : File) : Layout :=
  let bootloaderpos := (readLoader blimage).dword 0x40
  -- The helper value at 0x40 is not needed any more.
  let loaderimage := (readLoader blimage).memset 0x40 0x0 4
  let bootloaderstruct := Checksumstruct.read loaderimage bootloaderpos
  { loaderimage, bootloaderpos
    crom := readRom cromimage
    bootloaderstruct :=
      { bootloaderstruct with
        compressedImageStart := compressedImageStart bootloaderpos bootloaderstruct.sizeRamcopy
        compressedImageSize := cromimage.length % 0x100000000 }
    wellFormed :=
      { Checksumstruct.read_wellFormed loaderimage bootloaderpos with
        compressedImageStart := compressedImageStart_lt _ _
        compressedImageSize := Nat.mod_lt _ (by omega) }
    placed := rfl
    measured := (length_readRom cromimage).symm }

namespace Layout

variable (hashes : Hashes) (plan : Layout)

/-- `bootloaderstruct.compressed_image_start`. -/
def start : Nat := plan.bootloaderstruct.compressedImageStart

/-- `romsize`. -/
def romsize : Nat := plan.bootloaderstruct.compressedImageSize

/-- The loader in an otherwise empty image, with its structure and its own hash. -/
def stampLoader (biossizeType : Nat) : Memory :=
  let flash := blank.memcpy 0 plan.loaderimage 0 bankSize
  let flash :=
    { plan.bootloaderstruct with biossizeType }.write flash plan.bootloaderpos
  let result := hashes.sha1
    (flash.bytes (plan.bootloaderpos + 20) (sub32 plan.bootloaderstruct.sizeRamcopy 20))
  flash.store plan.bootloaderpos result.toList

/-- `flash256` with the ROM in place, before its hash is stored. -/
def loadRom : Memory :=
  let flash := plan.stampLoader hashes 0
  let flash := flash.memset (plan.start + 20 + plan.romsize) 0xff
    (sub32 (sub32 bankSize (plan.start + 20 + plan.romsize)) 512)
  flash.store (plan.start + 20) plan.crom

/-- The hash of the ROM, which both images store. -/
def romHash : Vector Byte 20 :=
  hashes.sha1 ((plan.loadRom hashes).bytes (plan.start + 20) plan.romsize)

/-- The 256 kbyte image. -/
def flash256 : Memory :=
  let flash := (plan.loadRom hashes).store plan.start (plan.romHash hashes).toList
  writeBiosIdentifier hashes flash bankSize

/-- The 1 Mbyte image: the loader in banks 0 and 3, the ROM in banks 1 and 2. -/
def flash1024 : Memory :=
  let flash := plan.stampLoader hashes 1
  let flash := flash.memset plan.start 0xff (sub32 (sub32 bankSize plan.start) 512)
  let flash := flash.memcpy (3 * bankSize) flash 0 bankSize
  let flash := flash.memset bankSize 0xff (2 * bankSize)
  let flash := flash.store (plan.start + bankSize) (plan.romHash hashes).toList
  let flash := flash.store (plan.start + 20 + bankSize) plan.crom
  let flash := flash.store (plan.start + 2 * bankSize) (plan.romHash hashes).toList
  let flash := flash.store (plan.start + 20 + 2 * bankSize) plan.crom
  writeBiosIdentifier hashes flash (4 * bankSize)

/-- The accesses of `romcopy` whose place depends on the files: the size of the
buffer, the offset and the number of bytes. -/
def accesses : List (Nat × Nat × Nat) :=
  [(4 * bankSize, 0, plan.romsize),
    (bankSize, plan.bootloaderpos, 36),
    (bankSize, plan.bootloaderpos + 20, sub32 plan.bootloaderstruct.sizeRamcopy 20),
    (4 * bankSize, plan.start, sub32 (sub32 bankSize plan.start) 512),
    (bankSize, plan.start + 20 + plan.romsize,
      sub32 (sub32 bankSize (plan.start + 20 + plan.romsize)) 512),
    (bankSize, plan.start, 20 + plan.romsize),
    (4 * bankSize, plan.start + 2 * bankSize, 20 + plan.romsize)]

/-- Every access stays inside its buffer. -/
def InBounds : Prop :=
  ∀ access ∈ plan.accesses, access.2.1 + access.2.2 ≤ access.1

instance : Decidable plan.InBounds := inferInstanceAs (Decidable (∀ access ∈ _, _))

end Layout

/-- `romcopy`; an unreadable file is `none`. -/
def romcopy (hashes : Hashes) (blimage cromimage : Option File) : Except BuildError Images :=
  match blimage, cromimage with
  | some blimage, some cromimage =>
    let plan := layout blimage cromimage
    if plan.InBounds then
      .ok { flash256 := plan.flash256 hashes, flash1024 := plan.flash1024 hashes }
    else
      .error .outOfBounds
  | _, _ => .error .cannotOpen

end Cromwell.Rom
