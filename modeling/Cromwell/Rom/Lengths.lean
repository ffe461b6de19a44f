import Cromwell.Rom.Patches

/-!
# What the builder rejects

`romcopy` computes offsets and lengths in `unsigned int` and checks none of them;
it only reports a file that cannot be opened. Each of its bulk operations is listed
here as computed, next to the number of bytes its expression denotes. All of them
are sound for exactly the files with room for a ROM between the loader and the top
512 bytes of a bank.
-/

namespace Cromwell.Rom

open Cromwell.Std

/-! ## Bulk operations -/

/-- Addition of two `unsigned int`. -/
def add32 (left right : Nat) : Nat := (left + right) % 0x100000000

theorem add32_of_lt {left right : Nat} (bounded : left + right < 0x100000000) :
    add32 left right = left + right :=
  Nat.mod_eq_of_lt bounded

/-- An access to a buffer of `size` bytes. The expression for its length denotes
`denoted`; `length` is what `unsigned int` makes of it. -/
structure BulkOperation where
  size : Nat
  offset : Nat
  length : Nat
  denoted : Int
  deriving Repr, DecidableEq

namespace BulkOperation

/-- An access whose length is not a difference. -/
def plain (size offset length : Nat) : BulkOperation := ⟨size, offset, length, length⟩

/-- The length has not wrapped, and the access stays inside the buffer. -/
structure Sound (operation : BulkOperation) : Prop where
  exact : (operation.length : Int) = operation.denoted
  inside : operation.offset + operation.length ≤ operation.size

theorem sound_plain_iff {size offset length : Nat} :
    (plain size offset length).Sound ↔ offset + length ≤ size :=
  ⟨Sound.inside, fun inside => ⟨rfl, inside⟩⟩

end BulkOperation

open BulkOperation (plain)

/-- The operations of `romcopy` that are the same for all files. -/
def constantOperations : List BulkOperation :=
  -- The four buffers are cleared, and the loader file is read.
  [plain bankSize 0 bankSize, plain (4 * bankSize) 0 (4 * bankSize),
    plain (4 * bankSize) 0 (4 * bankSize), plain bankSize 0 bankSize, plain bankSize 0 bankSize,
    -- The GDT, and the pointer to the structure.
    plain bankSize 0x3fe00 512, plain bankSize 0x3ffd0 32, plain bankSize 0x40 4,
    plain bankSize 0x40 4,
    -- The loader image is copied to both images, and from bank 0 to bank 3.
    plain bankSize 0 bankSize, plain bankSize 0 bankSize, plain (4 * bankSize) 0 bankSize,
    plain (4 * bankSize) 0 bankSize, plain (4 * bankSize) (3 * bankSize) bankSize,
    plain (4 * bankSize) bankSize (2 * bankSize),
    -- The identifiers, and the images that are written to the files.
    plain bankSize (bankSize - 64) 64, plain bankSize 0 (bankSize - 16),
    plain (4 * bankSize) (4 * bankSize - 64) 64, plain (4 * bankSize) 0 (4 * bankSize - 16),
    plain bankSize 0 bankSize, plain (4 * bankSize) 0 (4 * bankSize)]

theorem constantOperations_sound : ∀ operation ∈ constantOperations, operation.Sound := by
  intro operation member
  have exact : ∀ operation ∈ constantOperations,
      (operation.length : Int) = operation.denoted := by decide
  have inside : ∀ operation ∈ constantOperations,
      operation.offset + operation.length ≤ operation.size := by decide
  exact ⟨exact operation member, inside operation member⟩

namespace Layout

variable (plan : Layout)

/-- The hash of the loader in an image of `size` bytes: `Size_ramcopy-20` bytes. -/
def hashLoader (size : Nat) : BulkOperation where
  size
  offset := add32 plan.bootloaderpos 20
  length := sub32 plan.bootloaderstruct.sizeRamcopy 20
  denoted := plan.bootloaderstruct.sizeRamcopy - 20

/-- `256*1024-compressed_image_start-512` bytes of the 1 Mbyte image are filled. -/
def fillBank : BulkOperation where
  size := 4 * bankSize
  offset := plan.start
  length := sub32 (sub32 bankSize plan.start) 512
  denoted := bankSize - plan.start - 512

/-- `compressed_image_start+20+romsize`. -/
def romEnd : Nat := add32 (add32 plan.start 20) plan.romsize

/-- The rest of the 256 kbyte image up to the top 512 bytes is filled. -/
def fillRest : BulkOperation where
  size := bankSize
  offset := plan.romEnd
  length := sub32 (sub32 bankSize plan.romEnd) 512
  denoted := bankSize - (plan.start + 20 + plan.romsize) - 512

/-- The hash of the ROM and the ROM in bank `bank` of an image of `size` bytes. -/
def placeRom (size bank : Nat) : List BulkOperation :=
  [plain size (add32 plan.start (bank * bankSize)) 20,
    plain size (add32 (add32 plan.start 20) (bank * bankSize)) plan.romsize]

/-- The operations whose place or length depends on the files. -/
def computedOperations : List BulkOperation :=
  -- The ROM file is read, and used as the source of three copies.
  [plain (4 * bankSize) 0 plan.romsize,
    plain bankSize plan.bootloaderpos 36, plain bankSize plan.bootloaderpos 36,
    plain (4 * bankSize) plan.bootloaderpos 36,
    plan.hashLoader bankSize, plain bankSize plan.bootloaderpos 20,
    plan.hashLoader (4 * bankSize), plain (4 * bankSize) plan.bootloaderpos 20,
    plan.fillBank, plan.fillRest] ++
  plan.placeRom bankSize 0 ++ plan.placeRom (4 * bankSize) 1 ++ plan.placeRom (4 * bankSize) 2

/-- Every operation is sound, and the ROM ends in front of the top 512 bytes. -/
structure Sound : Prop where
  constant : ∀ operation ∈ constantOperations, operation.Sound
  computed : ∀ operation ∈ plan.computedOperations, operation.Sound
  rom : plan.start + 20 + plan.romsize ≤ bankSize - 512

variable {plan : Layout}

/-- Sound operations put everything in its place. -/
theorem Sound.fits (sound : plan.Sound) : plan.Fits := by
  have bounded := plan.wellFormed.sizeRamcopy
  have pointed := (sound.computed (plain bankSize plan.bootloaderpos 36)
    (by simp [computedOperations])).inside
  have hash := sound.computed (plan.hashLoader bankSize) (by simp [computedOperations])
  have counted : ((sub32 plan.bootloaderstruct.sizeRamcopy 20 : Nat) : Int) =
      plan.bootloaderstruct.sizeRamcopy - 20 := hash.exact
  have covered : add32 plan.bootloaderpos 20 + sub32 plan.bootloaderstruct.sizeRamcopy 20 ≤
      bankSize := hash.inside
  have rom := sound.rom
  simp only [plain, bankSize] at pointed covered rom
  have hashed : 20 ≤ plan.bootloaderstruct.sizeRamcopy := by omega
  rw [sub32_of_le hashed bounded, add32_of_lt (by omega)] at covered
  have placed : plan.start = _ := plan.placed
  rw [compressedImageStart_eq (by simp only [bankSize]; omega)] at placed
  refine fits_of_room hashed ?_
  rw [← placed, ← plan.romsize_eq]
  exact rom

/-- Where everything has its place, nothing wraps and nothing is overrun. -/
theorem Fits.sound (fits : plan.Fits) : plan.Sound := by
  have bounded := plan.wellFormed.sizeRamcopy
  have hashed := fits.hashed
  have loader := fits.loader
  have struct := fits.struct
  have rom := fits.rom
  rw [← plan.romsize_eq] at rom
  simp only [bankSize] at rom
  have hashCount := sub32_of_le hashed bounded
  have hashPlace : add32 plan.bootloaderpos 20 = plan.bootloaderpos + 20 :=
    add32_of_lt (by omega)
  have fillCount : sub32 (sub32 0x40000 plan.start) 512 = 0x40000 - plan.start - 512 :=
    sub32_sub32 (by omega) (by omega)
  have contents : add32 plan.start 20 = plan.start + 20 := add32_of_lt (by omega)
  have finish : plan.romEnd = plan.start + 20 + plan.romsize := by
    rw [romEnd, contents, add32_of_lt (by omega)]
  have restCount : sub32 (sub32 0x40000 (plan.start + 20 + plan.romsize)) 512 =
      0x40000 - (plan.start + 20 + plan.romsize) - 512 := sub32_sub32 (by omega) (by omega)
  have hashSound : ∀ size, bankSize ≤ size → (plan.hashLoader size).Sound := fun size large => by
    simp only [bankSize] at large
    constructor <;> simp only [hashLoader, hashPlace, hashCount] <;> omega
  have fillSound : plan.fillBank.Sound := by
    constructor <;> simp only [fillBank, bankSize, fillCount] <;> omega
  have restSound : plan.fillRest.Sound := by
    constructor <;> simp only [fillRest, finish, bankSize, restCount] <;> omega
  have romSound : ∀ size bank, (bank + 1) * bankSize ≤ size → bank ≤ 2 →
      ∀ operation ∈ plan.placeRom size bank, operation.Sound := by
    intro size bank large low
    simp only [bankSize] at large
    have hash : add32 plan.start (bank * 0x40000) = plan.start + bank * 0x40000 :=
      add32_of_lt (by omega)
    have bytes : add32 (plan.start + 20) (bank * 0x40000) = plan.start + 20 + bank * 0x40000 :=
      add32_of_lt (by omega)
    simp only [placeRom, contents, bankSize, hash, bytes, List.forall_mem_cons,
      BulkOperation.sound_plain_iff]
    exact ⟨by omega, by omega, by simp⟩
  have computed : ∀ operation ∈ plan.computedOperations, operation.Sound := by
    simp only [computedOperations, List.forall_mem_append, List.forall_mem_cons,
      BulkOperation.sound_plain_iff]
    refine ⟨⟨⟨⟨?_, ?_, ?_, ?_, hashSound _ (by decide), ?_, hashSound _ (by decide), ?_, fillSound,
      restSound, by simp⟩, romSound _ 0 (by decide) (by decide)⟩,
      romSound _ 1 (by decide) (by decide)⟩, romSound _ 2 (by decide) (by decide)⟩ <;>
      simp only [bankSize] <;> omega
  exact ⟨constantOperations_sound, computed, by simp only [bankSize]; omega⟩

theorem sound_iff_fits : plan.Sound ↔ plan.Fits :=
  ⟨Sound.fits, Fits.sound⟩

end Layout

/-! ## In terms of the files -/

/-- The loader file in its zeroed buffer. -/
def loaderBuffer (blimage : File) : Memory := blank.store 0 (blimage.take bankSize)

/-- Where the file says its structure is. -/
def loaderPosition (blimage : File) : Nat := (loaderBuffer blimage).dword 0x40

/-- The size in the structure of the file, once the pointer to it is cleared. -/
def loaderSize (blimage : File) : Nat :=
  ((loaderBuffer blimage).memset 0x40 0x0 4).dword (loaderPosition blimage + 20)

/-- The loader can be hashed, and the ROM has room between the loader and the top 512
bytes of a bank. -/
structure Room (blimage cromimage : File) : Prop where
  hashed : 20 ≤ loaderSize blimage
  room : alignedStart (loaderPosition blimage) (loaderSize blimage) + 20 +
    cromimage.length % 0x100000000 ≤ bankSize - 512

theorem layout_bootloaderpos (blimage cromimage : File) :
    (layout blimage cromimage).bootloaderpos = loaderPosition blimage :=
  Memory.dword_congr fun k bound => dumpGdt_below (by omega)

/-- Below the GDT the builder reads the size the file has. -/
theorem layout_loaderSize {blimage cromimage : File}
    (below : loaderPosition blimage + 24 ≤ 0x3fe00) :
    (layout blimage cromimage).bootloaderstruct.sizeRamcopy = loaderSize blimage := by
  change ((readLoader blimage).memset 0x40 0x0 4).dword
    ((layout blimage cromimage).bootloaderpos + 20) = _
  rw [layout_bootloaderpos]
  refine Memory.dword_congr fun k bound => ?_
  by_cases cleared : 0x40 ≤ loaderPosition blimage + 20 + k ∧
      loaderPosition blimage + 20 + k < 0x40 + 4
  · rw [Memory.memset_inside _ cleared.1 cleared.2, Memory.memset_inside _ cleared.1 cleared.2]
  · rw [Memory.memset_outside _ (by omega), Memory.memset_outside _ (by omega)]
    exact dumpGdt_below (by omega)

/-- The layout of two files fits exactly when they leave room. -/
theorem layout_fits_iff {blimage cromimage : File} :
    (layout blimage cromimage).Fits ↔ Room blimage cromimage := by
  have position := layout_bootloaderpos blimage cromimage
  have length : (layout blimage cromimage).crom.length = cromimage.length % 0x100000000 :=
    length_readRom cromimage
  constructor
  · intro fits
    have room := fits.room
    have hashed := fits.hashed
    have low := room
    simp only [alignedStart, bankSize, position] at low
    have size : (layout blimage cromimage).bootloaderstruct.sizeRamcopy = _ :=
      layout_loaderSize (by omega)
    rw [size] at hashed
    rw [position, size, length] at room
    exact ⟨hashed, room⟩
  · rintro ⟨hashed, room⟩
    have low := room
    simp only [alignedStart, bankSize] at low
    have size : (layout blimage cromimage).bootloaderstruct.sizeRamcopy = _ :=
      layout_loaderSize (by omega)
    refine Layout.fits_of_room (by rwa [size]) ?_
    rwa [position, size, length]

/-! ## The builder -/

/-- Either `romcopy` returns an error without writing a file, or all it does with its
buffers is sound. -/
def RejectsOrFits (hashes : Hashes) (blimage cromimage : Option File) : Prop :=
  romcopy hashes blimage cromimage = .error .cannotOpen ∨
    ∃ loader rom, blimage = some loader ∧ cromimage = some rom ∧ (layout loader rom).Sound

/-- The builder rejects an unopened file and nothing else. -/
theorem romcopy_cannotOpen_iff {hashes : Hashes} {blimage cromimage : Option File} :
    romcopy hashes blimage cromimage = .error .cannotOpen ↔ blimage = none ∨ cromimage = none := by
  rcases blimage with _ | loader
  · simp [romcopy]
  rcases cromimage with _ | rom
  · simp [romcopy]
  simp only [romcopy, reduceCtorEq, or_self, iff_false]
  split <;> simp

/-- `romcopy` keeps to its buffers exactly when there is room for what it is given. -/
theorem romcopy_rejectsOrFits_iff (hashes : Hashes) (blimage cromimage : Option File) :
    RejectsOrFits hashes blimage cromimage ↔
      ∀ loader ∈ blimage, ∀ rom ∈ cromimage, Room loader rom := by
  rw [RejectsOrFits, romcopy_cannotOpen_iff]
  rcases blimage with _ | loader
  · simp
  rcases cromimage with _ | rom
  · simp
  simp [Layout.sound_iff_fits, layout_fits_iff]

/-- A ROM of 300000 bytes goes into the buffer for ROM files, but not into a bank. -/
theorem smallLoader_oversized :
    ¬RejectsOrFits zeroDigests (some smallLoader) (some (List.replicate 300000 0)) ∧
      romcopy zeroDigests (some smallLoader) (some (List.replicate 300000 0)) =
        .error .outOfBounds := by
  have tooLong : ¬Room smallLoader (List.replicate 300000 0) := fun fitting => by
    have room := fitting.room
    rw [List.length_replicate] at room
    exact absurd room (by decide +kernel)
  have misfit : ¬(layout smallLoader (List.replicate 300000 0)).Fits :=
    fun fits => tooLong (layout_fits_iff.mp fits)
  constructor
  · rintro (rejected | ⟨loader, rom, opened, read, sound⟩)
    · rcases romcopy_cannotOpen_iff.mp rejected with missing | missing
      · exact Option.some_ne_none _ missing
      · exact Option.some_ne_none _ missing
    · rw [← Option.some.inj opened, ← Option.some.inj read] at sound
      exact misfit sound.fits
  · rw [romcopy, if_neg (fun inBounds => misfit inBounds.fits)]

end Cromwell.Rom
