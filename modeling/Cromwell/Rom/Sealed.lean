import Cromwell.Rom.Image

/-!
# What the builder seals

An image is fit to boot when the loader in it carries its own hash and each copy
of the ROM carries the hash of its bytes. Both are properties of a range of
bytes, so they survive any change outside the range and any copy of it. The
builder computes the hashes before it fills, copies and labels the image; the
layout keeps those later writes out of every hashed range.
-/

namespace Cromwell.Rom

open Cromwell.Std

/-- A loader that passes its own hash check and describes the ROM as stated. -/
structure LoaderAt (hashes : Hashes) (image : Memory) (place sizeRamcopy start romsize
    biossizeType : Nat) : Prop where
  checksum : image.bytes place 20 =
    (hashes.sha1 (image.bytes (place + 20) (sub32 sizeRamcopy 20))).toList
  sizeRamcopy : image.dword (place + 20) = sizeRamcopy
  compressedImageStart : image.dword (place + 24) = start
  compressedImageSize : image.dword (place + 28) = romsize
  biossizeType : image.dword (place + 32) = biossizeType

/-- A ROM behind its own hash. -/
structure RomAt (hashes : Hashes) (image : Memory) (place : Nat) (crom : List Byte) : Prop where
  checksum : image.bytes place 20 = (hashes.sha1 crom).toList
  contents : image.bytes (place + 20) crom.length = crom

section Copies

variable {hashes : Hashes} {image other : Memory} {place target : Nat}

/-- A copy of the loader is a loader. -/
theorem LoaderAt.copy {sizeRamcopy start romsize biossizeType : Nat}
    (sealed : LoaderAt hashes image place sizeRamcopy start romsize biossizeType)
    (lower : 20 ≤ sizeRamcopy) (upper : sizeRamcopy < 0x100000000)
    (same : ∀ k, k < max 36 sizeRamcopy → other (target + k) = image (place + k)) :
    LoaderAt hashes other target sizeRamcopy start romsize biossizeType := by
  have shifted : ∀ offset count, offset + count ≤ max 36 sizeRamcopy → ∀ k, k < count →
      other (target + offset + k) = image (place + offset + k) := by
    intro offset count inside k bound
    rw [Nat.add_assoc, Nat.add_assoc]
    exact same (offset + k) (by omega)
  have hashed : other.bytes (target + 20) (sub32 sizeRamcopy 20) =
      image.bytes (place + 20) (sub32 sizeRamcopy 20) := by
    rw [sub32_of_le lower upper]
    exact Memory.bytes_congr (shifted 20 (sizeRamcopy - 20) (by omega))
  exact {
    checksum := by
      rw [hashed, ← sealed.checksum]
      exact Memory.bytes_congr fun k bound => same k (by omega)
    sizeRamcopy := (Memory.dword_congr (shifted 20 4 (by omega))).trans sealed.sizeRamcopy
    compressedImageStart :=
      (Memory.dword_congr (shifted 24 4 (by omega))).trans sealed.compressedImageStart
    compressedImageSize :=
      (Memory.dword_congr (shifted 28 4 (by omega))).trans sealed.compressedImageSize
    biossizeType := (Memory.dword_congr (shifted 32 4 (by omega))).trans sealed.biossizeType }

/-- A copy of a ROM with its hash is a ROM with its hash. -/
theorem RomAt.copy {crom : List Byte} (sealed : RomAt hashes image place crom)
    (same : ∀ k, k < 20 + crom.length → other (target + k) = image (place + k)) :
    RomAt hashes other target crom where
  checksum := by
    rw [← sealed.checksum]
    exact Memory.bytes_congr fun k bound => same k (by omega)
  contents := by
    have rest : other.bytes (target + 20) crom.length = image.bytes (place + 20) crom.length :=
      Memory.bytes_congr fun k bound => by
        rw [Nat.add_assoc, Nat.add_assoc]
        exact same (20 + k) (by omega)
    rw [rest, sealed.contents]

end Copies

/-! ## The layout -/

namespace Layout

/-- The parts of a layout lie one behind the other in the first bank. -/
structure Fits (plan : Layout) : Prop where
  hashed : 20 ≤ plan.bootloaderstruct.sizeRamcopy
  loader : plan.bootloaderpos + plan.bootloaderstruct.sizeRamcopy + 0x100 < plan.start
  rom : plan.start + 20 + plan.crom.length + 512 ≤ bankSize

variable {plan : Layout}

theorem romsize_eq (plan : Layout) : plan.romsize = plan.crom.length := plan.measured

theorem Fits.struct (fits : plan.Fits) : plan.bootloaderpos + 36 ≤ plan.start := by
  have hashed := fits.hashed
  have loader := fits.loader
  omega

theorem Fits.rom_inside (fits : plan.Fits) : plan.start + 20 + plan.crom.length ≤ bankSize := by
  have rom := fits.rom
  omega

/-- Rounding the end of the loader down to 16 bytes and adding a gap. -/
theorem compressedImageStart_eq {bootloaderpos sizeRamcopy : Nat}
    (inside : bootloaderpos + sizeRamcopy ≤ bankSize) :
    compressedImageStart bootloaderpos sizeRamcopy = alignedStart bootloaderpos sizeRamcopy := by
  have small : bootloaderpos + sizeRamcopy ≤ 0x40000 := inside
  have whole : (bootloaderpos + sizeRamcopy) % 0x100000000 = bootloaderpos + sizeRamcopy :=
    Nat.mod_eq_of_lt (by omega)
  have bounded : bootloaderpos + sizeRamcopy < 2 ^ 32 := by omega
  have masked := and_highMask 32 4 (by omega) bounded
  have mask : (2 ^ 32 - 2 ^ 4 : Nat) = 0xfffffff0 := by decide
  rw [mask] at masked
  simp only [compressedImageStart, alignedStart, whole, masked]
  omega

/-- A loader long enough to be hashed and a ROM that ends in front of the top 512
bytes make a layout that fits; the gap behind the loader leaves room for its
structure. -/
theorem fits_of_room (sized : 20 ≤ plan.bootloaderstruct.sizeRamcopy)
    (room : alignedStart plan.bootloaderpos plan.bootloaderstruct.sizeRamcopy + 20 +
      plan.crom.length ≤ bankSize - 512) : plan.Fits := by
  have placed : plan.start = _ := plan.placed
  simp only [alignedStart, bankSize] at room
  rw [compressedImageStart_eq (by simp only [bankSize]; omega), alignedStart] at placed
  exact ⟨by omega, by omega, by simp only [bankSize]; omega⟩

/-- Only such a layout fits. -/
theorem Fits.room (fits : plan.Fits) :
    alignedStart plan.bootloaderpos plan.bootloaderstruct.sizeRamcopy + 20 +
      plan.crom.length ≤ bankSize - 512 := by
  have loader := fits.loader
  have rom := fits.rom
  have placed : plan.start = _ := plan.placed
  simp only [bankSize] at rom ⊢
  rw [compressedImageStart_eq (by simp only [bankSize]; omega)] at placed
  omega

/-- A build that stays in its buffers puts everything in its place. -/
theorem InBounds.fits (inBounds : plan.InBounds) : plan.Fits := by
  have bounded := plan.wellFormed.sizeRamcopy
  have hashedInside := inBounds
    (bankSize, plan.bootloaderpos + 20, sub32 plan.bootloaderstruct.sizeRamcopy 20)
    (by simp [accesses])
  have romInside := inBounds (bankSize, plan.start, 20 + plan.romsize) (by simp [accesses])
  have filled := inBounds (bankSize, plan.start + 20 + plan.romsize,
    sub32 (sub32 bankSize (plan.start + 20 + plan.romsize)) 512) (by simp [accesses])
  simp only [plan.romsize_eq, bankSize] at hashedInside romInside filled
  have hashed : 20 ≤ plan.bootloaderstruct.sizeRamcopy := by
    by_contra short
    rw [sub32_of_lt (by omega) (by omega)] at hashedInside
    omega
  rw [sub32_of_le hashed bounded] at hashedInside
  have left : sub32 0x40000 (plan.start + 20 + plan.crom.length) =
      0x40000 - (plan.start + 20 + plan.crom.length) := sub32_of_le (by omega) (by omega)
  rw [left] at filled
  have room : 512 ≤ 0x40000 - (plan.start + 20 + plan.crom.length) := by
    by_contra short
    have wrapped := sub32_of_lt (by omega :
      0x40000 - (plan.start + 20 + plan.crom.length) < 512) (by omega)
    omega
  have placed : plan.start = _ := plan.placed
  rw [compressedImageStart_eq (by simp only [bankSize]; omega), alignedStart] at placed
  exact ⟨hashed, by omega, by simp only [bankSize]; omega⟩

/-- A layout whose parts fit is built without an access outside a buffer. -/
theorem Fits.inBounds (fits : plan.Fits) : plan.InBounds := by
  have hashed := fits.hashed
  have loader := fits.loader
  have rom := fits.rom
  have struct := fits.struct
  simp only [bankSize] at rom
  have hashedCount := sub32_of_le hashed (by omega)
  have fillCount : sub32 (sub32 0x40000 plan.start) 512 = 0x40000 - plan.start - 512 :=
    sub32_sub32 (by omega) (by omega)
  have restCount : sub32 (sub32 0x40000 (plan.start + 20 + plan.crom.length)) 512 =
      0x40000 - (plan.start + 20 + plan.crom.length) - 512 :=
    sub32_sub32 (by omega) (by omega)
  intro access member
  simp only [accesses, plan.romsize_eq, List.mem_cons, List.not_mem_nil, or_false] at member
  rcases member with rfl | rfl | rfl | rfl | rfl | rfl | rfl <;>
    simp only [bankSize, hashedCount, fillCount, restCount] <;> omega

theorem fits_iff_inBounds : plan.Fits ↔ plan.InBounds :=
  ⟨Fits.inBounds, InBounds.fits⟩

/-! ## The images -/

variable {hashes : Hashes}

/-- The stamped loader passes its own check. -/
theorem loaderAt_stampLoader (plan : Layout) {biossizeType : Nat}
    (bounded : biossizeType < 2 ^ 32) :
    LoaderAt hashes (plan.stampLoader hashes biossizeType) plan.bootloaderpos
      plan.bootloaderstruct.sizeRamcopy plan.start plan.romsize biossizeType := by
  have wellFormed : { plan.bootloaderstruct with biossizeType }.WellFormed :=
    { plan.wellFormed with biossizeType := bounded }
  -- The hash is stored in front of everything it covers.
  have hashed : ∀ (flash : Memory) (digest : Vector Byte 20) count,
      (flash.store plan.bootloaderpos digest.toList).bytes (plan.bootloaderpos + 20) count =
        flash.bytes (plan.bootloaderpos + 20) count := fun flash digest count =>
    Memory.bytes_congr fun k _ => digest_outside _ _ (.inr (by omega))
  have member : ∀ offset, 20 ≤ offset → ∀ (flash : Memory) (digest : Vector Byte 20),
      (flash.store plan.bootloaderpos digest.toList).dword (plan.bootloaderpos + offset) =
        flash.dword (plan.bootloaderpos + offset) := fun offset behind flash digest =>
    Memory.dword_congr fun k _ => digest_outside _ _ (.inr (by omega))
  exact {
    checksum := by rw [stampLoader, digest_bytes, hashed]
    sizeRamcopy := by
      rw [stampLoader, member 20 (by omega)]
      exact Checksumstruct.write_sizeRamcopy wellFormed _ _
    compressedImageStart := by
      rw [stampLoader, member 24 (by omega)]
      exact Checksumstruct.write_compressedImageStart wellFormed _ _
    compressedImageSize := by
      rw [stampLoader, member 28 (by omega)]
      exact Checksumstruct.write_compressedImageSize wellFormed _ _
    biossizeType := by
      rw [stampLoader, member 32 (by omega)]
      exact Checksumstruct.write_biossizeType wellFormed _ _ }

/-- Storing a ROM and its hash seals it. -/
theorem romAt_store (memory : Memory) (crom : List Byte) {place behind : Nat}
    (follows : behind = place + 20) :
    RomAt hashes ((memory.store place (hashes.sha1 crom).toList).store behind crom) place crom where
  checksum := by
    have outside : ∀ k, k < 20 → (memory.store place (hashes.sha1 crom).toList).store behind crom
        (place + k) = memory.store place (hashes.sha1 crom).toList (place + k) :=
      fun k bound => Memory.store_outside _ (by omega)
    rw [Memory.bytes_congr outside, digest_bytes]
  contents := by rw [← follows, Memory.bytes_store]

/-- The hash both images store is that of the ROM. -/
theorem romHash_eq (plan : Layout) : plan.romHash hashes = hashes.sha1 plan.crom := by
  rw [romHash, loadRom, romsize_eq, Memory.bytes_store]

/-- The two copies of the ROM are the last writes before the identifier block. -/
theorem flash1024_roms (hashes : Hashes) (plan : Layout) : ∃ filled : Memory, ∀ x, x < 3 * 0x40000 →
    plan.flash1024 hashes x =
      ((((filled.store (plan.start + 0x40000) (hashes.sha1 plan.crom).toList).store
        (plan.start + 20 + 0x40000) plan.crom).store
        (plan.start + 2 * 0x40000) (hashes.sha1 plan.crom).toList).store
        (plan.start + 20 + 2 * 0x40000) plan.crom) x :=
  ⟨_, fun x below => by
    rw [flash1024, bankSize, writeBiosIdentifier_below _ _ (by omega), romHash_eq]⟩

section Images

variable (fits : plan.Fits)

include fits

/-- Nothing below the ROM changes once the loader of the 256 kbyte image is stamped. -/
theorem flash256_below {x : Nat} (below : x < plan.start) :
    plan.flash256 hashes x = plan.stampLoader hashes 0 x := by
  have rom := fits.rom
  simp only [bankSize] at rom
  rw [flash256, bankSize, writeBiosIdentifier_below _ _ (by omega), digest_outside _ _ (by omega),
    loadRom, Memory.store_outside _ (by omega), Memory.memset_outside _ (by omega)]

/-- The loader of the 256 kbyte image. -/
theorem loaderAt_flash256 :
    LoaderAt hashes (plan.flash256 hashes) plan.bootloaderpos
      plan.bootloaderstruct.sizeRamcopy plan.start plan.romsize 0 := by
  have struct := fits.struct
  have loader := fits.loader
  refine (loaderAt_stampLoader plan (by omega)).copy fits.hashed plan.wellFormed.sizeRamcopy ?_
  exact fun k bound => flash256_below fits (by omega)

/-- The ROM of the 256 kbyte image. -/
theorem romAt_flash256 : RomAt hashes (plan.flash256 hashes) plan.start plan.crom := by
  have rom := fits.rom
  simp only [bankSize] at rom
  have below : ∀ x, x < plan.start + 20 + plan.crom.length → plan.flash256 hashes x =
      ((plan.loadRom hashes).store plan.start (plan.romHash hashes).toList) x := fun x upper => by
    rw [flash256, bankSize, writeBiosIdentifier_below _ _ (by omega)]
  exact {
    checksum := by
      rw [Memory.bytes_congr fun k bound => below (plan.start + k) (by omega), digest_bytes,
        romHash_eq]
    contents := by
      rw [Memory.bytes_congr fun k bound => (below _ (by omega)).trans
        (digest_outside (plan.loadRom hashes) _ (.inr (by omega))), loadRom, Memory.bytes_store] }

/-- Banks 0 and 3 of the 1 Mbyte image hold the loader. -/
theorem flash1024_loader {bank x : Nat} (loaderBank : bank = 0 ∨ bank = 3)
    (below : x < plan.start) :
    plan.flash1024 hashes (bank * bankSize + x) = plan.stampLoader hashes 1 x := by
  have rom := fits.rom
  simp only [bankSize] at rom ⊢
  rw [flash1024, bankSize, writeBiosIdentifier_below _ _ (by omega),
    Memory.store_outside _ (by omega), digest_outside _ _ (by omega),
    Memory.store_outside _ (by omega), digest_outside _ _ (by omega),
    Memory.memset_outside _ (by omega)]
  rcases loaderBank with rfl | rfl
  · rw [Memory.memcpy_outside _ _ (by omega), Memory.memset_outside _ (by omega), Nat.zero_mul,
      Nat.zero_add]
  · have origin : 0 + (3 * 0x40000 + x - 3 * 0x40000) = x := by omega
    rw [Memory.memcpy_inside _ _ (by omega) (by omega), origin, Memory.memset_outside _ (by omega)]

/-- The loaders of the 1 Mbyte image. -/
theorem loaderAt_flash1024 {bank : Nat} (loaderBank : bank = 0 ∨ bank = 3) :
    LoaderAt hashes (plan.flash1024 hashes) (bank * bankSize + plan.bootloaderpos)
      plan.bootloaderstruct.sizeRamcopy plan.start plan.romsize 1 := by
  have struct := fits.struct
  have loader := fits.loader
  refine (loaderAt_stampLoader plan (by omega)).copy fits.hashed plan.wellFormed.sizeRamcopy ?_
  intro k bound
  rw [Nat.add_assoc]
  exact flash1024_loader fits loaderBank (by omega)

/-- The ROMs of the 1 Mbyte image. -/
theorem romAt_flash1024 {bank : Nat} (romBank : bank = 1 ∨ bank = 2) :
    RomAt hashes (plan.flash1024 hashes) (bank * bankSize + plan.start) plan.crom := by
  have rom := fits.rom
  obtain ⟨filled, stored⟩ := flash1024_roms hashes plan
  simp only [bankSize] at rom ⊢
  rcases romBank with rfl | rfl
  · have follows : plan.start + 20 + 0x40000 = plan.start + 0x40000 + 20 := by omega
    refine (romAt_store filled plan.crom follows).copy fun k bound => ?_
    rw [stored _ (by omega), Memory.store_outside _ (by omega), digest_outside _ _ (by omega),
      Nat.one_mul, Nat.add_comm 0x40000]
  · have follows : plan.start + 20 + 2 * 0x40000 = plan.start + 2 * 0x40000 + 20 := by omega
    let first := (filled.store (plan.start + 0x40000) (hashes.sha1 plan.crom).toList).store
      (plan.start + 20 + 0x40000) plan.crom
    refine (romAt_store first plan.crom follows).copy fun k bound => ?_
    rw [stored _ (by omega), Nat.add_comm (2 * 0x40000)]

end Images

end Layout

/-- `romcopy` writes the images of the layouts that fit. -/
theorem romcopy_ok_iff {hashes : Hashes} {blimage cromimage : File} {images : Images} :
    romcopy hashes (some blimage) (some cromimage) = .ok images ↔
      (layout blimage cromimage).Fits ∧
        images = { flash256 := (layout blimage cromimage).flash256 hashes
                   flash1024 := (layout blimage cromimage).flash1024 hashes } := by
  simp only [romcopy, Layout.fits_iff_inBounds]
  split
  · next inBounds => simp [inBounds, eq_comm]
  · next outside => simp [outside]

end Cromwell.Rom
