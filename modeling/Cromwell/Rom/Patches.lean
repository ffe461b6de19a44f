import Cromwell.Rom.Sealed

/-!
# Which patches survive

`romcopy` patches the 256 kbyte image in four places: the reset code and the GDT
at its top, the loader with its structure and hash, the ROM with its hash, and
the identifier block. The loader and the ROM of a layout that fits lie below the
top 512 bytes, so nothing written later reaches them. The identifier block is
the last write and covers the place of the reset code, the far jump and part of
the GDT.
-/

namespace Cromwell.Rom

open Cromwell.Std

/-! ## The identifier block -/

/-- The members of `struct BiosIdentifier` but for its hash. -/
structure LabelledAt (image : Memory) (header : Nat) : Prop where
  magic : image.bytes header 4 = [0x41, 0x55, 0x54, 0x4f]
  headerVersion : image (header + 4) = 1
  xboxVersion : image (header + 5) = 0x7f
  videoEncoder : image (header + 6) = 0x03
  biosSize : image.dword (header + 12) = header + 64
  name : image.bytes (header + 16) biosName.length = biosName

/-- A `struct BiosIdentifier` at the end of an image, with the hash of everything in
front of that hash. -/
structure IdentifierAt (hashes : Hashes) (image : Memory) (header : Nat) : Prop
    extends LabelledAt image header where
  md5Hash : image.bytes (header + 48) 16 = (hashes.md5 (image.bytes 0 (header + 48))).toList

/-- The members are stored one after the other, each in its own place. -/
theorem writeBiosIdentifier_labelled (hashes : Hashes) (cromimage : Memory) {header : Nat}
    (bounded : header + 64 < 2 ^ 32) :
    ∃ labelled : Memory, LabelledAt labelled header ∧
      writeBiosIdentifier hashes cromimage (header + 64) = labelled.store (header + 48)
        (hashes.md5 (labelled.bytes 0 (header + 48))).toList := by
  have front : header + 64 - 64 = header := by omega
  have hashed : header + 64 - 16 = header + 48 := by omega
  have named : biosName.length = 18 := by decide
  rw [writeBiosIdentifier, front, hashed]
  let version := (cromimage.store header [0x41, 0x55, 0x54, 0x4f]).set (header + 4) 1
  let size := version.store (header + 12) (dwordBytes (header + 64))
  refine ⟨_, ?_, rfl⟩
  exact {
    magic := by
      refine Eq.trans (Memory.bytes_congr fun k bound => ?_)
        (Memory.bytes_store cromimage header [0x41, 0x55, 0x54, 0x4f])
      rw [Memory.set_other _ (by omega), Memory.set_other _ (by omega),
        Memory.store_outside _ (.inl (by omega)), Memory.store_outside _ (.inl (by omega)),
        Memory.set_other _ (by omega)]
    headerVersion := by
      rw [Memory.set_other _ (by omega), Memory.set_other _ (by omega),
        Memory.store_outside _ (.inl (by omega)), Memory.store_outside _ (.inl (by omega)),
        Memory.set_same]
    xboxVersion := by rw [Memory.set_other _ (by omega), Memory.set_same]
    videoEncoder := Memory.set_same _
    biosSize := by
      refine Eq.trans (Memory.dword_congr fun k bound => ?_)
        (Memory.dword_store version (header + 12) bounded)
      rw [Memory.set_other _ (by omega), Memory.set_other _ (by omega),
        Memory.store_outside _ (.inl (by omega))]
    name := by
      refine Eq.trans (Memory.bytes_congr fun k bound => ?_)
        (Memory.bytes_store size (header + 16) biosName)
      rw [Memory.set_other _ (by omega), Memory.set_other _ (by omega)] }

/-- The hash behind the members leaves them alone. -/
theorem identifierAt_writeBiosIdentifier (hashes : Hashes) (cromimage : Memory) {header : Nat}
    (bounded : header + 64 < 2 ^ 32) :
    IdentifierAt hashes (writeBiosIdentifier hashes cromimage (header + 64)) header := by
  obtain ⟨labelled, members, written⟩ :=
    writeBiosIdentifier_labelled hashes cromimage bounded
  rw [written]
  have named : biosName.length = 18 := by decide
  let digest := hashes.md5 (labelled.bytes 0 (header + 48))
  have kept : ∀ x, x < header + 48 →
      labelled.store (header + 48) digest.toList x = labelled x :=
    fun x below => Memory.store_outside _ (.inl below)
  exact {
    magic := (Memory.bytes_congr fun k bound => kept _ (by omega)).trans members.magic
    headerVersion := (kept _ (by omega)).trans members.headerVersion
    xboxVersion := (kept _ (by omega)).trans members.xboxVersion
    videoEncoder := (kept _ (by omega)).trans members.videoEncoder
    biosSize := (Memory.dword_congr fun k bound => kept _ (by omega)).trans members.biosSize
    name := (Memory.bytes_congr fun k bound => kept _ (by omega)).trans members.name
    md5Hash := by
      have stored := Memory.bytes_store labelled (header + 48) digest.toList
      have covered : (labelled.store (header + 48) digest.toList).bytes 0 (header + 48) =
          labelled.bytes 0 (header + 48) :=
        Memory.bytes_congr fun k bound => kept _ (by omega)
      rw [Vector.length_toList] at stored
      rw [stored, covered] }

/-- The block has no member between its name and its hash. -/
theorem writeBiosIdentifier_gap (hashes : Hashes) (cromimage : Memory) {header x : Nat}
    (lower : header + 34 ≤ x) (upper : x < header + 48) :
    writeBiosIdentifier hashes cromimage (header + 64) x = cromimage x := by
  have front : header + 64 - 64 = header := by omega
  have named : biosName.length = 18 := by decide
  rw [writeBiosIdentifier, front, Memory.store_outside _ (.inl upper),
    Memory.set_other _ (by omega), Memory.set_other _ (by omega),
    Memory.store_outside _ (.inr (by omega)),
    Memory.store_dwordBytes_outside _ (.inr (by omega)), Memory.set_other _ (by omega),
    Memory.store_outside _ (.inr (by simp only [List.length_cons, List.length_nil]; omega))]

/-! ## The patches of the 256 kbyte image -/

/-- Every patch `romcopy` makes is still in the image. -/
structure PatchesIntact (hashes : Hashes) (plan : Layout) (image : Memory) : Prop where
  gdt : ∀ entry ∈ gdtBytes, image entry.1 = entry.2
  loader : LoaderAt hashes image plan.bootloaderpos plan.bootloaderstruct.sizeRamcopy plan.start
    plan.romsize 0
  rom : RomAt hashes image plan.start plan.crom
  identifier : IdentifierAt hashes image 0x3ffc0

/-- The identifier has other bytes where the reset code, the far jump and the first
limit of the GDT were. -/
theorem LabelledAt.replaces {image : Memory} (labelled : LabelledAt image 0x3ffc0)
    {entry : Nat × Byte} (member : entry ∈ gdtBytes) (covered : entry.1 < 0x3ffe2) :
    image entry.1 ≠ entry.2 := by
  have differ : ∀ entry ∈ gdtBytes, entry.1 < 0x3ffe2 → entry = (0x3ffcc + 3, 0xfc) ∨
      ∃ k < 18, entry.1 = 0x3ffd0 + k ∧ biosName[k]? ≠ some entry.2 := by decide
  rcases differ entry member covered with rfl | ⟨k, bound, place, other⟩
  · -- The most significant byte of the size is zero.
    have size : image.bytes 0x3ffcc 4 = dwordBytes 0x40000 := by
      rw [Memory.bytes_dword, labelled.biosSize]
    have byte := Memory.getElem?_bytes image 0x3ffcc (by decide : 3 < 4)
    rw [size] at byte
    exact fun kept => absurd (byte.trans (congrArg some kept)) (by decide)
  · have name : image.bytes 0x3ffd0 18 = biosName := labelled.name
    have letter := Memory.getElem?_bytes image 0x3ffd0 bound
    rw [name, ← place] at letter
    exact fun kept => other (letter.trans (congrArg some kept))

namespace Layout

variable {hashes : Hashes} {plan : Layout}

/-- The top of the loader image stays as it is until the identifier is written. -/
theorem Fits.stampLoader_top (fits : plan.Fits) {biossizeType x : Nat}
    (small : biossizeType < 2 ^ 32) (lower : 0x3fe00 ≤ x) (upper : x < 0x40000) :
    plan.stampLoader hashes biossizeType x = plan.loaderimage x := by
  have struct := fits.struct
  have rom := fits.rom
  simp only [bankSize] at rom
  have wellFormed : { plan.bootloaderstruct with biossizeType }.WellFormed :=
    { plan.wellFormed with biossizeType := small }
  rw [stampLoader, bankSize, digest_outside _ _ (by omega),
    Checksumstruct.write_outside wellFormed _ (by omega),
    Memory.memcpy_inside _ _ (by omega) (by omega), Nat.zero_add, Nat.sub_zero]

/-- Between the name and the hash of the identifier the image is that of the loader file. -/
theorem Fits.flash256_gap (fits : plan.Fits) {x : Nat} (lower : 0x3ffe2 ≤ x)
    (upper : x < 0x3fff0) : plan.flash256 hashes x = plan.loaderimage x := by
  have rom := fits.rom
  simp only [bankSize] at rom
  have count : sub32 (sub32 0x40000 (plan.start + 20 + plan.crom.length)) 512 =
      0x40000 - (plan.start + 20 + plan.crom.length) - 512 := sub32_sub32 (by omega) (by omega)
  have size : bankSize = 0x3ffc0 + 64 := by decide
  rw [flash256, size, writeBiosIdentifier_gap _ _ (by omega) (by omega),
    digest_outside _ _ (by omega), loadRom, Memory.store_outside _ (.inr (by omega)), bankSize,
    plan.romsize_eq, count, Memory.memset_outside _ (.inr (by omega)),
    fits.stampLoader_top (by omega) (by omega) (by omega)]

end Layout

/-- The loader image of a layout carries the GDT. -/
theorem layout_gdt (blimage cromimage : File) {entry : Nat × Byte} (member : entry ∈ gdtBytes) :
    (layout blimage cromimage).loaderimage entry.1 = entry.2 := by
  have top : ∀ entry ∈ gdtBytes, 0x44 ≤ entry.1 := by decide
  have high := top entry member
  have patched : (layout blimage cromimage).loaderimage entry.1 =
      (readLoader blimage).memset 0x40 0x0 4 entry.1 := rfl
  rw [patched, Memory.memset_outside _ (.inr (by omega)), readLoader, dumpGdt_entry _ member]

/-- Whatever `romcopy` writes has lost its reset code and its far jump to the
identifier. The loader, the ROM and the identifier are intact, and so is the part of
the GDT that the identifier leaves out. -/
theorem romcopy_overwrites_gdt (hashes : Hashes) (blimage cromimage : File) (images : Images)
    (written : romcopy hashes (some blimage) (some cromimage) = .ok images) :
    let plan := layout blimage cromimage
    ¬PatchesIntact hashes plan images.flash256 ∧
      LoaderAt hashes images.flash256 plan.bootloaderpos plan.bootloaderstruct.sizeRamcopy
        plan.start plan.romsize 0 ∧
      RomAt hashes images.flash256 plan.start plan.crom ∧
      IdentifierAt hashes images.flash256 0x3ffc0 ∧
      ∀ entry ∈ gdtBytes,
        (entry.1 < 0x3ffe2 → images.flash256 entry.1 ≠ entry.2) ∧
        (0x3ffe2 ≤ entry.1 → entry.1 < 0x3fff0 → images.flash256 entry.1 = entry.2) := by
  intro plan
  obtain ⟨fits, rfl⟩ := romcopy_ok_iff.mp written
  have identifier : IdentifierAt hashes (plan.flash256 hashes) 0x3ffc0 :=
    identifierAt_writeBiosIdentifier hashes _ (by decide)
  refine ⟨fun intact => ?lost, Layout.loaderAt_flash256 fits, Layout.romAt_flash256 fits,
    identifier, fun entry member => ⟨identifier.replaces member, fun lower upper => ?kept⟩⟩
  case lost =>
    have jump : ((0x3ffd0, 0xea) : Nat × Byte) ∈ gdtBytes := by decide
    exact identifier.replaces jump (by decide) (intact.gdt _ jump)
  case kept =>
    exact (fits.flash256_gap lower upper).trans (layout_gdt _ _ member)

/-! ## A small build -/

/-- Digests of the right lengths. -/
def zeroDigests : Hashes where
  sha1 := fun _ => Vector.replicate 20 0
  md5 := fun _ => Vector.replicate 16 0

/-- A loader file with its structure at its start and nothing behind it. -/
def smallLoader : File := List.replicate 20 0 ++ dwordBytes 36

theorem smallLoader_built :
    romcopy zeroDigests (some smallLoader) (some [0x12]) = .ok
      { flash256 := (layout smallLoader [0x12]).flash256 zeroDigests
        flash1024 := (layout smallLoader [0x12]).flash1024 zeroDigests } :=
  romcopy_ok_iff.mpr ⟨Layout.fits_of_room (by decide +kernel) (by decide +kernel), rfl⟩

/-- The far jump of a small image is the first letter of its name. -/
theorem smallLoader_farJump :
    romcopy zeroDigests (some smallLoader) (some [0x12]) = .ok
        { flash256 := (layout smallLoader [0x12]).flash256 zeroDigests
          flash1024 := (layout smallLoader [0x12]).flash1024 zeroDigests } ∧
      ¬PatchesIntact zeroDigests (layout smallLoader [0x12])
        ((layout smallLoader [0x12]).flash256 zeroDigests) := by
  have identifier : IdentifierAt zeroDigests ((layout smallLoader [0x12]).flash256 zeroDigests)
      0x3ffc0 := identifierAt_writeBiosIdentifier zeroDigests _ (by decide)
  have jump : ((0x3ffd0, 0xea) : Nat × Byte) ∈ gdtBytes := by decide
  exact ⟨smallLoader_built, fun intact => identifier.replaces jump (by decide) (intact.gdt _ jump)⟩

theorem romcopy_overwrites_gdt_smallLoader :
    ¬PatchesIntact zeroDigests (layout smallLoader [0x12])
      ((layout smallLoader [0x12]).flash256 zeroDigests) :=
  (romcopy_overwrites_gdt zeroDigests smallLoader [0x12] _ smallLoader_built).1

end Cromwell.Rom
