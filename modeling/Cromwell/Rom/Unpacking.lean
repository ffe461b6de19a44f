import Cromwell.Rom.Agreement
import Cromwell.Rom.Patches
import Cromwell.Gzip.Members

/-!
# From the packed image to Cromwell

What `romcopy` puts into an image is compressed. The loader unpacks the copy whose hash it
has found to be right and writes four words over the result. So Cromwell is started on the
data that were packed, apart from those words, whichever bank they come from. RAM is taken to
go on for as long as the data do.
-/

namespace Cromwell.Rom

open Cromwell.Std

/-- `decompress_kernel` on RAM. Its tables and its window are kept apart, so that all of RAM
that it changes is what lies behind `out`. A run that does not return is not followed. -/
def unpack (fuel : Nat) (window : Memory) (out data len : Nat) (ram : Memory) : Memory :=
  match Gzip.decompressKernel fuel (Gzip.handedOver (fun k => ram (data + k)) len window) with
  | .leave (_, after) => ram.store out after.output
  | .next _ => ram

/-- A ROM file begins with a gzip member. -/
def Packs (rom : List Byte) (member : Gzip.Member) : Prop :=
  Spells (fun k => rom.getD k 0) 0 member.bits ∧ member.bits.length ≤ 8 * rom.length

/-- Where the ROM lies in RAM, its member is unpacked. -/
theorem Packs.unpack {rom : List Byte} {member : Gzip.Member} {fuel data : Nat} {ram : Memory}
    (packs : Packs rom member) (enough : 8 * rom.length + 259 ≤ fuel)
    (holds : ram.bytes data rom.length = rom) (window : Memory) (out : Nat) :
    Rom.unpack fuel window out data rom.length ram = ram.store out member.data := by
  obtain ⟨spells, room⟩ := packs
  have same : ∀ k < rom.length, rom.getD k 0 = ram (data + k) := by
    intro k inside
    have item := Memory.getElem?_bytes ram data inside
    rw [holds] at item
    rw [List.getD_eq_getElem?_getD, item, Option.getD_some]
  have read : Spells (fun k => ram (data + k)) 0 member.bits :=
    spells.congr (by omega) same
  obtain ⟨_, after, run, output, -⟩ := (Gzip.decompressKernel_writes
    (s := Gzip.handedOver (fun k => ram (data + k)) rom.length window) member read room
    enough).returns
  rw [Rom.unpack, run]
  exact congrArg (ram.store out) output

/-! ## What the loader leaves -/

section Loader

variable {machine : Machine} {ram : Memory}

/-- The four words for Cromwell. -/
theorem writeConfig_words (cromloadtry flashbank biossizeType : Nat) (tries : cromloadtry < 2 ^ 32)
    (bank : flashbank < 2 ^ 32) (size : biossizeType < 2 ^ 32) :
    let after := writeConfig ram cromloadtry flashbank biossizeType
    after.dword (cromwellMemoryPos + 0x20) = 1 ∧
      after.dword (cromwellMemoryPos + 0x24) = cromloadtry ∧
      after.dword (cromwellMemoryPos + 0x28) = flashbank ∧
      after.dword (cromwellMemoryPos + 0x2C) = biossizeType := by
  have apart : ∀ (memory : Memory) (first second value : Nat),
      first + 4 ≤ second ∨ second + 4 ≤ first →
      (memory.store second (dwordBytes value)).dword first = memory.dword first := by
    intro memory first second value outside
    exact Memory.dword_store_other _ (by rwa [length_dwordBytes])
  refine ⟨?_, ?_, ?_, ?_⟩
  · rw [writeConfig, apart _ _ _ _ (by omega), apart _ _ _ _ (by omega), apart _ _ _ _ (by omega)]
    exact Memory.dword_store _ _ (by omega)
  · rw [writeConfig, apart _ _ _ _ (by omega), apart _ _ _ _ (by omega)]
    exact Memory.dword_store _ _ tries
  · rw [writeConfig, apart _ _ _ _ (by omega)]
    exact Memory.dword_store _ _ bank
  · rw [writeConfig]
    exact Memory.dword_store _ _ size

/-- Nothing else is written for Cromwell. -/
theorem writeConfig_outside (cromloadtry flashbank biossizeType : Nat) {x : Nat}
    (outside : x < cromwellMemoryPos + 0x20 ∨ cromwellMemoryPos + 0x30 ≤ x) :
    writeConfig ram cromloadtry flashbank biossizeType x = ram x := by
  rw [writeConfig, Memory.store_outside _ (by rw [length_dwordBytes]; omega),
    Memory.store_outside _ (by rw [length_dwordBytes]; omega),
    Memory.store_outside _ (by rw [length_dwordBytes]; omega),
    Memory.store_outside _ (by rw [length_dwordBytes]; omega)]

/-- What has been unpacked is the data of the call. -/
def Unpacked (machine : Machine) (header : Checksumstruct) (loaded : Loaded) : Prop :=
  ∃ before : Memory,
    loaded.call.data =
      before.bytes cromwellCompressTemploc header.compressedImageSize ∧
    loaded.ram = writeConfig (machine.decompressKernel cromwellMemoryPos cromwellCompressTemploc
      header.compressedImageSize before) 1 (loaded.call.flashbank + 1) header.biossizeType

theorem attempt_unpacked (header : Checksumstruct) (loadretry : Nat) (attempts : Attempts) :
    (attempt machine header loadretry attempts).Ends (fun _ => True)
      (Unpacked machine header) := by
  unfold attempt
  dsimp only
  split
  case isTrue => exact ⟨_, rfl, rfl⟩
  case isFalse => trivial

/-- A run that jumps has unpacked the data of its only call. -/
theorem jumped_unpacked (jumped : (bootStartBiosLoader machine ram).ending = .jumped) :
    ∃ loaded, (bootStartBiosLoader machine ram).calls = [loaded.call] ∧
      (bootStartBiosLoader machine ram).ram = loaded.ram ∧
      Unpacked machine (Checksumstruct.read ram programmMemory2bl) loaded := by
  have exits := forLoop_exit
    (@attempt_unpacked machine (Checksumstruct.read ram programmMemory2bl)) 100 0
    { flashbank := 3, ram, tried := [] }
  unfold bootStartBiosLoader at jumped ⊢
  dsimp only at jumped ⊢
  split at jumped
  case isFalse => exact Ending.noConfusion jumped
  case isTrue checked =>
    rw [if_pos checked]
    generalize forLoop (attempt machine (Checksumstruct.read ram programmMemory2bl)) 100 0
      { flashbank := 3, ram, tried := [] } = ended at exits jumped ⊢
    cases ended with
    | next attempts => exact Ending.noConfusion jumped
    | leave loaded => exact ⟨loaded, rfl, rfl, exits⟩

/-- The loader jumps to Cromwell, which finds its image, and in it the four words. -/
structure Delivered (machine : Machine) (ram : Memory) (flashbank biossizeType : Nat)
    (data : List Byte) : Prop where
  jumped : (bootStartBiosLoader machine ram).ending = .jumped
  image : ∀ k, k < data.length → k < 0x20 ∨ 0x30 ≤ k →
    (bootStartBiosLoader machine ram).ram (cromwellMemoryPos + k) = data.getD k 0
  words : (bootStartBiosLoader machine ram).ram.dword (cromwellMemoryPos + 0x20) = 1 ∧
    (bootStartBiosLoader machine ram).ram.dword (cromwellMemoryPos + 0x24) = 1 ∧
    (bootStartBiosLoader machine ram).ram.dword (cromwellMemoryPos + 0x28) = flashbank ∧
    (bootStartBiosLoader machine ram).ram.dword (cromwellMemoryPos + 0x2C) = biossizeType

/-- A ROM that is started and unpacked is delivered. -/
theorem Starts.delivered {flashbank : Fin 4} {rom data : List Byte} {biossizeType : Nat}
    (starts : Starts machine ram flashbank rom)
    (unpacks : ∀ before : Memory, before.bytes cromwellCompressTemploc rom.length = rom →
      machine.decompressKernel cromwellMemoryPos cromwellCompressTemploc rom.length before =
        before.store cromwellMemoryPos data)
    (size : ram.dword (programmMemory2bl + 32) = biossizeType) :
    Delivered machine ram (flashbank + 1) biossizeType data := by
  obtain ⟨-, jumped, loadretry, calls⟩ := starts
  obtain ⟨loaded, only, final, before, copied, written⟩ := jumped_unpacked jumped
  have call : loaded.call = { loadretry, flashbank, data := rom } :=
    List.head_eq_of_cons_eq (only.symm.trans calls)
  rw [call] at copied written
  dsimp only at copied written
  have length : (Checksumstruct.read ram programmMemory2bl).compressedImageSize = rom.length := by
    rw [copied, Memory.length_bytes]
  have type : (Checksumstruct.read ram programmMemory2bl).biossizeType = biossizeType := size
  rw [length] at copied written
  rw [type, unpacks before copied.symm] at written
  have small : biossizeType < 2 ^ 32 := by
    rw [← size]
    exact Memory.dword_lt _ _
  have bank : (flashbank : Nat) + 1 < 2 ^ 32 := by omega
  refine ⟨jumped, ?_, ?_⟩
  · intro k inside beside
    rw [final, written, writeConfig_outside _ _ _ (by omega),
      Memory.store_inside _ (by omega) (by omega), List.getD_eq_getElem?_getD,
      List.getElem?_eq_getElem inside, Option.getD_some]
    simp only [Nat.add_sub_cancel_left]
  · rw [final, written]
    exact writeConfig_words 1 _ _ (by omega) bank small

end Loader

/-! ## The images of `romcopy` -/

/-- Both images bring the data to Cromwell, and the 1 Mbyte image does so from bank 2 where
bank 1 is damaged. Banks are counted from 1 here. -/
structure Delivers (hashes : Hashes) (plan : Layout) (images : Images)
    (decompressKernel : (out data len : Nat) → Memory → Memory) (data : List Byte) : Prop where
  quarter : ∀ ram,
    CopiedFrom ram images.flash256 plan.bootloaderpos plan.bootloaderstruct.sizeRamcopy →
    Delivered (Machine.ofChip hashes decompressKernel bankSize images.flash256) ram 4 0 data
  megabyte : ∀ ram bank, bank = 0 ∨ bank = 3 →
    CopiedFrom ram images.flash1024 (bank * bankSize + plan.bootloaderpos)
      plan.bootloaderstruct.sizeRamcopy →
    Delivered (Machine.ofChip hashes decompressKernel (4 * bankSize) images.flash1024) ram 2 1 data
  damaged : ∀ ram bank (altered : Memory), bank = 0 ∨ bank = 3 →
    CopiedFrom ram altered (bank * bankSize + plan.bootloaderpos)
      plan.bootloaderstruct.sizeRamcopy →
    (∀ x, x < bankSize ∨ 2 * bankSize ≤ x → altered x = images.flash1024 x) →
    altered.bytes (1 * bankSize + plan.start) 20 ≠
      (hashes.sha1 (altered.bytes (1 * bankSize + plan.start + 20) plan.crom.length)).toList →
    Delivered (Machine.ofChip hashes decompressKernel (4 * bankSize) altered) ram 3 1 data

section Built

variable {hashes : Hashes} {plan : Layout}

/-- The kind of an image is found where the loader lies in the last or the first bank. -/
theorem Layout.Fits.type1024 (fits : plan.Fits) {ram altered : Memory} {bank : Nat}
    (loaderBank : bank = 0 ∨ bank = 3)
    (copied : CopiedFrom ram altered (bank * bankSize + plan.bootloaderpos)
      plan.bootloaderstruct.sizeRamcopy)
    (outside : ∀ x, x < bankSize ∨ 2 * bankSize ≤ x → altered x = plan.flash1024 hashes x) :
    ram.dword (programmMemory2bl + 32) = 1 := by
  have inside := fits.rom_inside
  have below := fits.loader
  have struct := fits.struct
  have loader : LoaderAt hashes altered (bank * bankSize + plan.bootloaderpos)
      plan.bootloaderstruct.sizeRamcopy plan.start plan.romsize 1 := by
    apply (loaderAt_flash1024 fits loaderBank).copy fits.hashed plan.wellFormed.sizeRamcopy
    intro k bound
    rcases loaderBank with rfl | rfl
    · exact outside _ (.inl (by omega))
    · exact outside _ (.inr (by omega))
  exact (copied.sealed fits loader).biossizeType

/-- What starts is delivered, for every image that is built. -/
theorem Layout.Fits.delivers (fits : plan.Fits)
    {decompressKernel : (out data len : Nat) → Memory → Memory} {data : List Byte}
    (unpacks : ∀ before : Memory,
      before.bytes cromwellCompressTemploc plan.crom.length = plan.crom →
      decompressKernel cromwellMemoryPos cromwellCompressTemploc plan.crom.length before =
        before.store cromwellMemoryPos data) :
    Delivers hashes plan ⟨plan.flash256 hashes, plan.flash1024 hashes⟩ decompressKernel data where
  quarter ram copied :=
    (fits.agrees.quarter decompressKernel ram copied).delivered unpacks
      (copied.sealed fits (loaderAt_flash256 fits)).biossizeType
  megabyte ram bank loaderBank copied :=
    (fits.agrees.megabyte decompressKernel ram bank loaderBank copied).delivered unpacks
      (fits.type1024 loaderBank copied fun _ _ => rfl)
  damaged ram bank altered loaderBank copied outside wrong :=
    (fits.agrees.damaged decompressKernel ram bank altered loaderBank copied outside
      wrong).delivered unpacks (fits.type1024 loaderBank copied outside)

end Built

/-- What is packed is what runs: a ROM file that begins with a gzip member is built into
images from which the loader starts Cromwell on the data of the member. -/
theorem romcopy_delivers {hashes : Hashes} {blimage cromimage : File} {images : Images}
    {member : Gzip.Member} {fuel : Nat} (window : Memory)
    (built : romcopy hashes (some blimage) (some cromimage) = .ok images)
    (packs : Packs (readRom cromimage) member)
    (enough : 8 * (readRom cromimage).length + 259 ≤ fuel) :
    Delivers hashes (layout blimage cromimage) images (unpack fuel window) member.data := by
  obtain ⟨fits, rfl⟩ := romcopy_ok_iff.mp built
  exact fits.delivers fun before holds => packs.unpack enough holds window cromwellMemoryPos

/-- A ROM file with four letters. -/
def fourLettersRom : File := (List.range 64).map (packed Gzip.fourLetters.bits)

theorem packs_fourLettersRom : Packs (readRom fourLettersRom) Gzip.fourLetters := by
  have length : fourLettersRom.length = 64 := by simp [fourLettersRom]
  rw [readRom_of_lt (by omega), Packs, length]
  have inside : 0 + Gzip.fourLetters.bits.length ≤ 8 * 64 := by
    rw [Nat.zero_add]
    exact Gzip.room_fourLetters
  refine ⟨(spells_packed _).congr inside ?_, Gzip.room_fourLetters⟩
  intro k bound
  simp [fourLettersRom, bound]

theorem romcopy_delivers_fourLetters :
    Delivers zeroDigests (layout smallLoader fourLettersRom)
      { flash256 := (layout smallLoader fourLettersRom).flash256 zeroDigests
        flash1024 := (layout smallLoader fourLettersRom).flash1024 zeroDigests }
      (unpack 800 fun _ => 0) [0x61, 0x61, 0x61, 0x61] := by
  have built : romcopy zeroDigests (some smallLoader) (some fourLettersRom) = .ok _ :=
    romcopy_ok_iff.mpr ⟨Layout.fits_of_room (by decide +kernel) (by decide +kernel), rfl⟩
  have length : (readRom fourLettersRom).length = 64 := by
    rw [length_readRom]
    simp [fourLettersRom]
  have data : Gzip.fourLetters.data = [0x61, 0x61, 0x61, 0x61] := by decide
  rw [← data]
  exact romcopy_delivers _ built packs_fourLettersRom (by omega)

end Cromwell.Rom
