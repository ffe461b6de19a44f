import Cromwell.Rom.Sealed
import Cromwell.Rom.Loader
import Mathlib.Data.Fintype.Basic
import Mathlib.Tactic.FinCases

/-!
# Builder and loader agree

The images `romcopy` writes are booted by `BootStartBiosLoader`: the loader it
finds in RAM passes its check, and the ROM comes out of the bank the schedule
reaches first. When bank 1 of a 1 Mbyte image is damaged, its 25 attempts fail
and the copy in bank 2 is started.
-/

namespace Cromwell.Rom

open Cromwell.Std

/-- A machine whose flash chip holds an image; a chip smaller than the flash
window repeats in it. -/
def Machine.ofChip (hashes : Hashes) (decompressKernel : (out data len : Nat) → Memory → Memory)
    (capacity : Nat) (image : Memory) : Machine where
  sha1 := hashes.sha1
  flash _ address := image (address % capacity)
  decompressKernel := decompressKernel

/-- RAM holds the loader as the startup code copies it from a place in an image. -/
def CopiedFrom (ram image : Memory) (place sizeRamcopy : Nat) : Prop :=
  ∀ k, k < max 36 sizeRamcopy → ram (programmMemory2bl + k) = image (place + k)

/-- The loader passes its self check and starts `data` from a bank. -/
def Starts (machine : Machine) (ram : Memory) (flashbank : Fin 4) (data : List Byte) : Prop :=
  SelfCheck machine ram ∧ (bootStartBiosLoader machine ram).ending = .jumped ∧
    ∃ loadretry, (bootStartBiosLoader machine ram).calls = [{ loadretry, flashbank, data }]

/-! ## Reading a chip -/

section Chip

variable {hashes : Hashes} {decompressKernel : (out data len : Nat) → Memory → Memory}
  {capacity : Nat} {image : Memory}

/-- A copy out of the flash window is a range of the image. -/
theorem flashBytes_ofChip {read address place count : Nat}
    (window : ∀ k, k < count → (address + k) % 0x100000000 % capacity = place + k) :
    (Machine.ofChip hashes decompressKernel capacity image).flashBytes read address count =
      image.bytes place count := by
  apply List.map_congr_left
  intro k member
  simp only [Machine.ofChip, window k (List.mem_range.mp member)]

/-- A bank of the flash window shows the ROM at a place of the chip. -/
def Shows (capacity start romsize : Nat) (flashbank : Fin 4) (place : Nat) : Prop :=
  ∀ k, k < 20 + romsize → (imageAddress start flashbank + k) % 0x100000000 % capacity = place + k

variable {start romsize place : Nat} {flashbank : Fin 4}

theorem Shows.checksum (shows : Shows capacity start romsize flashbank place) (read : Nat) :
    (Machine.ofChip hashes decompressKernel capacity image).flashBytes read
      (imageAddress start flashbank) 20 = image.bytes place 20 :=
  flashBytes_ofChip fun k bound => shows k (by omega)

theorem Shows.data (shows : Shows capacity start romsize flashbank place) (read : Nat) :
    (Machine.ofChip hashes decompressKernel capacity image).flashBytes read
      (imageAddress start flashbank + 20) romsize = image.bytes (place + 20) romsize :=
  flashBytes_ofChip fun k bound => by
    rw [Nat.add_assoc, Nat.add_assoc]
    exact shows (20 + k) (by omega)

/-- Whether a bank is accepted is decided by the bytes of the image. -/
theorem matches_iff {checksum : List Byte} {sizeRamcopy biossizeType : Nat} (loadretry : Nat)
    (shows : Shows capacity start romsize flashbank place) :
    Matches (Machine.ofChip hashes decompressKernel capacity image)
        ⟨checksum, sizeRamcopy, start, romsize, biossizeType⟩ loadretry flashbank ↔
      image.bytes place 20 = (hashes.sha1 (image.bytes (place + 20) romsize)).toList := by
  unfold Matches
  rw [shows.checksum, shows.data, Machine.ofChip]

/-- The banks of a 1 Mbyte chip lie one behind the other. -/
theorem shows_megabyte (inside : start + 20 + romsize ≤ bankSize) :
    Shows (4 * bankSize) start romsize flashbank (flashbank * bankSize + start) := by
  intro k bound
  simp only [bankSize] at inside ⊢
  fin_cases flashbank <;> simp [imageAddress, buildinflashFlash] <;> omega

/-- A 256 kbyte chip shows the same bytes in every bank. -/
theorem shows_quarter (inside : start + 20 + romsize ≤ bankSize) :
    Shows bankSize start romsize flashbank start := by
  intro k bound
  simp only [bankSize] at inside ⊢
  fin_cases flashbank <;> simp [imageAddress, buildinflashFlash] <;> omega

end Chip

/-! ## Runs of the loader -/

section Runs

variable {machine : Machine} {header : Checksumstruct} {failures : Nat} {bad good : Fin 4}

/-- Once an attempt has been made, the loader is still on the same bank. -/
def StillOn (flashbank : Fin 4) (loadretry : Nat) (attempts : Attempts) : Prop :=
  0 < loadretry → attempts.flashbank = flashbank

/-- If the first attempts all read one bank in vain, and the next one reads a
bank whose hash matches, the loop is left with the image of that bank. -/
theorem loop_finds (attempts : Attempts) (early : failures < 100)
    (stays : ∀ loadretry attempts, loadretry < failures → StillOn bad loadretry attempts →
      selectBank header.biossizeType loadretry attempts.flashbank = bad)
    (fails : ∀ loadretry, loadretry < failures → ¬Matches machine header loadretry bad)
    (moves : ∀ current, selectBank header.biossizeType failures current = good)
    (found : Matches machine header failures good) :
    ∃ ram tried, forLoop (attempt machine header) 100 0 attempts = .leave
      { call :=
          { loadretry := failures, flashbank := good
            data := machine.flashBytes (2 * failures + 1)
              (imageAddress header.compressedImageStart good + 20) header.compressedImageSize }
        ram, tried } := by
  have waiting : (forLoop (attempt machine header) failures 0 attempts).Ends
      (StillOn bad (0 + failures)) (fun _ => False) := by
    apply forLoop_ends
    · exact fun positive => absurd positive (Nat.lt_irrefl 0)
    · intro loadretry later _ upper current
      rw [Nat.zero_add] at upper
      have bank := stays loadretry later upper current
      obtain ⟨hashed, _⟩ | ⟨_, ram, continued⟩ := attempt_cases machine header loadretry later
      · rw [bank] at hashed
        exact absurd hashed (fails loadretry upper)
      · rw [continued]
        exact fun _ => bank
  obtain ⟨rest, total⟩ : ∃ rest, 100 = failures + (rest + 1) := ⟨99 - failures, by omega⟩
  rw [total, forLoop_add, Nat.zero_add]
  generalize forLoop (attempt machine header) failures 0 attempts = ended at waiting ⊢
  cases ended with
  | leave result => exact waiting.elim
  | next later =>
      simp only [Pass.andThen, forLoop_succ]
      obtain ⟨_, ram, _, left⟩ | ⟨different, _⟩ := attempt_cases machine header failures later
      · rw [left, moves]
        exact ⟨ram, _, rfl⟩
      · rw [moves] at different
        exact absurd found different

end Runs

/-- A loader sealed in RAM starts the sealed ROM its schedule comes to first,
after any number of attempts on a bank with a wrong hash. -/
theorem starts_of_sealed {hashes : Hashes}
    {decompressKernel : (out data len : Nat) → Memory → Memory} {capacity : Nat}
    {image ram : Memory} {sizeRamcopy start biossizeType place wrong : Nat} {crom : List Byte}
    (failures : Nat) (bad good : Fin 4)
    (loader : LoaderAt hashes ram programmMemory2bl sizeRamcopy start crom.length biossizeType)
    (early : failures < 100)
    (stays : ∀ loadretry attempts, loadretry < failures → StillOn bad loadretry attempts →
      selectBank biossizeType loadretry attempts.flashbank = bad)
    (moves : ∀ current, selectBank biossizeType failures current = good)
    (showsBad : Shows capacity start crom.length bad wrong)
    (damaged : 0 < failures → image.bytes wrong 20 ≠
      (hashes.sha1 (image.bytes (wrong + 20) crom.length)).toList)
    (shows : Shows capacity start crom.length good place)
    (rom : RomAt hashes image place crom) :
    Starts (Machine.ofChip hashes decompressKernel capacity image) ram good crom := by
  let machine := Machine.ofChip hashes decompressKernel capacity image
  let header : Checksumstruct :=
    ⟨ram.bytes programmMemory2bl 20, sizeRamcopy, start, crom.length, biossizeType⟩
  have read : Checksumstruct.read ram programmMemory2bl = header := by
    rw [Checksumstruct.read, loader.sizeRamcopy, loader.compressedImageStart,
      loader.compressedImageSize, loader.biossizeType]
  have selfCheck : SelfCheck machine ram := by
    rw [SelfCheck, read]
    exact loader.checksum
  have fails : ∀ loadretry, loadretry < failures → ¬Matches machine header loadretry bad :=
    fun loadretry before same => damaged (by omega) ((matches_iff loadretry showsBad).mp same)
  have found : Matches machine header failures good := by
    refine (matches_iff failures shows).mpr ?_
    rw [rom.contents]
    exact rom.checksum
  obtain ⟨loaded, tried, ended⟩ :=
    loop_finds { flashbank := 3, ram, tried := [] } early stays fails moves found
  have data : machine.flashBytes (2 * failures + 1) (imageAddress start good + 20) crom.length =
      crom := by rw [shows.data, rom.contents]
  rw [data] at ended
  refine ⟨selfCheck, ?_⟩
  simp only [bootStartBiosLoader, if_pos selfCheck, read, machine] at ended ⊢
  rw [ended]
  exact ⟨rfl, failures, rfl⟩

/-! ## The images of `romcopy` -/

theorem selectBank_one_of_lt {loadretry : Nat} {attempts : Attempts} (before : loadretry < 25)
    (still : StillOn 1 loadretry attempts) : selectBank 1 loadretry attempts.flashbank = 1 := by
  cases loadretry with
  | zero => rfl
  | succ loadretry =>
      rw [still (by omega)]
      unfold selectBank
      rw [if_neg (by omega), if_pos rfl]
      split <;> omega

/-- Both images boot, and the 1 Mbyte image survives a damaged bank 1. -/
structure Agrees (hashes : Hashes) (plan : Layout) (images : Images) (rom : List Byte) : Prop where
  quarter : ∀ decompressKernel ram,
    CopiedFrom ram images.flash256 plan.bootloaderpos plan.bootloaderstruct.sizeRamcopy →
    Starts (Machine.ofChip hashes decompressKernel bankSize images.flash256) ram 3 rom
  megabyte : ∀ decompressKernel ram bank, bank = 0 ∨ bank = 3 →
    CopiedFrom ram images.flash1024 (bank * bankSize + plan.bootloaderpos)
      plan.bootloaderstruct.sizeRamcopy →
    Starts (Machine.ofChip hashes decompressKernel (4 * bankSize) images.flash1024) ram 1 rom
  damaged : ∀ decompressKernel ram bank (altered : Memory), bank = 0 ∨ bank = 3 →
    CopiedFrom ram altered (bank * bankSize + plan.bootloaderpos)
      plan.bootloaderstruct.sizeRamcopy →
    (∀ x, x < bankSize ∨ 2 * bankSize ≤ x → altered x = images.flash1024 x) →
    altered.bytes (1 * bankSize + plan.start) 20 ≠
      (hashes.sha1 (altered.bytes (1 * bankSize + plan.start + 20) plan.crom.length)).toList →
    Starts (Machine.ofChip hashes decompressKernel (4 * bankSize) altered) ram 2 rom

section Built

variable {hashes : Hashes} {plan : Layout} {ram image : Memory} {place biossizeType : Nat}

/-- The startup code copies a sealed loader into RAM. -/
theorem CopiedFrom.sealed (fits : plan.Fits)
    (copied : CopiedFrom ram image place plan.bootloaderstruct.sizeRamcopy)
    (loader : LoaderAt hashes image place plan.bootloaderstruct.sizeRamcopy plan.start
      plan.romsize biossizeType) :
    LoaderAt hashes ram programmMemory2bl plan.bootloaderstruct.sizeRamcopy plan.start
      plan.crom.length biossizeType := by
  rw [← plan.romsize_eq]
  exact loader.copy fits.hashed plan.wellFormed.sizeRamcopy copied

/-- Every image that is built boots. -/
theorem Layout.Fits.agrees (fits : plan.Fits) :
    Agrees hashes plan ⟨plan.flash256 hashes, plan.flash1024 hashes⟩ plan.crom where
  quarter decompressKernel ram copied := by
    have inside := fits.rom_inside
    exact starts_of_sealed 0 3 3 (copied.sealed fits (loaderAt_flash256 fits)) (by omega)
      (fun _ _ never => absurd never (Nat.not_lt_zero _)) (fun _ => rfl) (shows_quarter inside)
      (fun never => absurd never (Nat.lt_irrefl 0)) (shows_quarter inside) (romAt_flash256 fits)
  megabyte decompressKernel ram bank loaderBank copied := by
    have inside := fits.rom_inside
    exact starts_of_sealed 0 1 1 (copied.sealed fits (loaderAt_flash1024 fits loaderBank))
      (by omega) (fun _ _ never => absurd never (Nat.not_lt_zero _)) (fun _ => rfl)
      (shows_megabyte inside) (fun never => absurd never (Nat.lt_irrefl 0)) (shows_megabyte inside)
      (romAt_flash1024 fits (.inl rfl))
  damaged decompressKernel ram bank altered loaderBank copied outside wrong := by
    have inside := fits.rom_inside
    have below := fits.loader
    have struct := fits.struct
    have loader : LoaderAt hashes altered (bank * bankSize + plan.bootloaderpos)
        plan.bootloaderstruct.sizeRamcopy plan.start plan.romsize 1 := by
      refine (loaderAt_flash1024 fits loaderBank).copy fits.hashed plan.wellFormed.sizeRamcopy ?_
      intro k bound
      rcases loaderBank with rfl | rfl
      · exact outside _ (.inl (by omega))
      · exact outside _ (.inr (by omega))
    have rom : RomAt hashes altered (2 * bankSize + plan.start) plan.crom :=
      (romAt_flash1024 fits (.inr rfl)).copy fun k _ => outside _ (.inr (by omega))
    exact starts_of_sealed 25 1 2 (copied.sealed fits loader) (by omega)
      (fun _ _ before still => selectBank_one_of_lt before still) (fun _ => rfl)
      (shows_megabyte inside) (fun _ => wrong) (shows_megabyte inside) rom

end Built

/-- Builder and loader agree. The first part says when images are written at
all; the second speaks of every image that is written. -/
theorem romcopy_and_loader_agree (hashes : Hashes) (blimage cromimage : File) :
    let plan := layout blimage cromimage
    (36 ≤ plan.bootloaderstruct.sizeRamcopy →
      alignedStart plan.bootloaderpos plan.bootloaderstruct.sizeRamcopy + 20 + cromimage.length ≤
        bankSize - 512 →
      ∃ images, romcopy hashes (some blimage) (some cromimage) = .ok images ∧
        Agrees hashes plan images cromimage) ∧
    ∀ images, romcopy hashes (some blimage) (some cromimage) = .ok images →
      Agrees hashes plan images (readRom cromimage) := by
  intro plan
  constructor
  · intro sized room
    have whole : plan.crom = cromimage :=
      readRom_of_lt (by simp only [bankSize] at room; omega)
    have fits : plan.Fits := Layout.fits_of_room (by omega) (by rwa [whole])
    refine ⟨_, romcopy_ok_iff.mpr ⟨fits, rfl⟩, ?_⟩
    have agrees : Agrees hashes _ _ _ := fits.agrees
    rwa [whole] at agrees
  · intro images written
    obtain ⟨fits, rfl⟩ := romcopy_ok_iff.mp written
    exact fits.agrees

end Cromwell.Rom
