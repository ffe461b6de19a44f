import Cromwell.Rom.Image
import Cromwell.Std.Loop
import Mathlib.Data.Fin.VecNotation

/-!
# The second-stage loader

`BootStartBiosLoader` runs from RAM. It checks its own hash, then makes up to 100
attempts to copy the compressed image out of a flash bank, and starts the first
copy whose hash is right. The graphics, PCI and LED accesses between these steps
do not touch RAM or the flash window and are left out.
-/

namespace Cromwell.Rom

open Cromwell.Std

/-- What the loader meets outside its own variables. -/
structure Machine where
  /-- The hash of `sha1.c`. -/
  sha1 : List Byte → Vector Byte 20
  /-- What the `read`-th copy out of the flash window sees at an address. -/
  flash : (read address : Nat) → Byte
  /-- The effect of `decompress_kernel(out, data, len)` on RAM. -/
  decompressKernel : (out data len : Nat) → Memory → Memory

/-- `PROGRAMM_Memory_2bl`. -/
def programmMemory2bl : Nat := 0x00100000

/-- `CROMWELL_Memory_pos`. -/
def cromwellMemoryPos : Nat := 0x03A00000

/-- `CROMWELL_compress_temploc`. -/
def cromwellCompressTemploc : Nat := 0x02000000

/-- `Buildinflash_Flash`, the base addresses of the banks. -/
def buildinflashFlash : Fin 4 → Nat := ![0xfff00000, 0xfff40000, 0xfff80000, 0xfffc0000]

/-- `count` bytes of the flash window, as the `read`-th copy sees them. -/
def Machine.flashBytes (machine : Machine) (read address count : Nat) : List Byte :=
  (List.range count).map fun k => machine.flash read ((address + k) % 0x100000000)

@[simp] theorem Machine.length_flashBytes (machine : Machine) (read address count : Nat) :
    (machine.flashBytes read address count).length = count := by
  simp [flashBytes]

/-- The bank an attempt reads from; after 25 failures a 1 Mbyte image moves on. -/
def selectBank (biossizeType loadretry : Nat) (flashbank : Fin 4) : Fin 4 :=
  if biossizeType = 0 then 3
  else if biossizeType = 1 then
    match loadretry with
    | 0 => 1
    | 25 => 2
    | 50 => 0
    | 75 => 3
    | _ => flashbank
  else flashbank

/-- A call of `decompress_kernel`: the attempt that made it, the bank the data
was copied from, and the data. -/
structure DecompressCall where
  loadretry : Nat
  flashbank : Fin 4
  data : List Byte
  deriving Repr, DecidableEq

/-- What one attempt hands to the next: the bank, RAM, and the banks tried so far. -/
structure Attempts where
  flashbank : Fin 4
  ram : Memory
  tried : List (Fin 4)

/-- The state in which the retry loop is left for Cromwell. -/
structure Loaded where
  call : DecompressCall
  ram : Memory
  tried : List (Fin 4)

section Attempt

variable (machine : Machine) (header : Checksumstruct)

/-- Where the compressed image of a bank starts, behind its 20-byte hash. -/
def imageAddress (compressedImageStart : Nat) (flashbank : Fin 4) : Nat :=
  (buildinflashFlash flashbank + compressedImageStart) % 0x100000000

/-- The four words `BootStartBiosLoader` leaves for Cromwell. -/
def writeConfig (ram : Memory) (cromloadtry flashbank biossizeType : Nat) : Memory :=
  let ram := ram.store (cromwellMemoryPos + 0x20) (dwordBytes 1)
  let ram := ram.store (cromwellMemoryPos + 0x24) (dwordBytes cromloadtry)
  let ram := ram.store (cromwellMemoryPos + 0x28) (dwordBytes flashbank)
  ram.store (cromwellMemoryPos + 0x2C) (dwordBytes biossizeType)

/-- RAM after the image has been copied from a bank. -/
def copyImage (loadretry : Nat) (flashbank : Fin 4) (ram : Memory) : Memory :=
  let image := machine.flashBytes (2 * loadretry + 1)
    (imageAddress header.compressedImageStart flashbank + 20) header.compressedImageSize
  (ram.store cromwellCompressTemploc image).memset
    (cromwellCompressTemploc + header.compressedImageSize) 0x00 (20 * 1024)

/-- One pass of the retry loop. -/
def attempt (loadretry : Nat) (attempts : Attempts) : Pass Attempts Loaded :=
  let flashbank := selectBank header.biossizeType loadretry attempts.flashbank
  let cromloadtry := 1
  let bootloaderChecksum := machine.flashBytes (2 * loadretry)
    (imageAddress header.compressedImageStart flashbank) 20
  let ram := copyImage machine header loadretry flashbank attempts.ram
  let data := ram.bytes cromwellCompressTemploc header.compressedImageSize
  let tried := attempts.tried ++ [flashbank]
  if bootloaderChecksum = (machine.sha1 data).toList then
    let ram := machine.decompressKernel cromwellMemoryPos cromwellCompressTemploc
      header.compressedImageSize ram
    -- The recorded bank counts from 1.
    let ram := writeConfig ram cromloadtry (flashbank + 1) header.biossizeType
    .leave { call := { loadretry, flashbank, data }, ram, tried }
  else
    .next { flashbank, ram, tried }

end Attempt

/-- How `BootStartBiosLoader` ends. -/
inductive Ending where
  /-- The loader's own hash is wrong; it waits for the PIC. -/
  | selfCheckFailed
  /-- `ljmp` to Cromwell. -/
  | jumped
  /-- No attempt succeeded. -/
  | gaveUp
  deriving Repr, DecidableEq

/-- What a run of the loader did. -/
structure LoaderRun where
  ending : Ending
  /-- The banks the attempts read from, in order. -/
  tried : List (Fin 4)
  /-- The calls of `decompress_kernel`. -/
  calls : List DecompressCall
  ram : Memory

/-- The loader in RAM carries the hash of its own bytes. -/
def SelfCheck (machine : Machine) (ram : Memory) : Prop :=
  let header := Checksumstruct.read ram programmMemory2bl
  header.checksum =
    (machine.sha1 (ram.bytes (programmMemory2bl + 20) (sub32 header.sizeRamcopy 20))).toList

instance (machine : Machine) (ram : Memory) : Decidable (SelfCheck machine ram) :=
  inferInstanceAs (Decidable (_ = _))

/-- `BootStartBiosLoader`. -/
def bootStartBiosLoader (machine : Machine) (ram : Memory) : LoaderRun :=
  let header := Checksumstruct.read ram programmMemory2bl
  if SelfCheck machine ram then
    match forLoop (attempt machine header) 100 0 { flashbank := 3, ram, tried := [] } with
    | .leave loaded =>
      { ending := .jumped, tried := loaded.tried, calls := [loaded.call], ram := loaded.ram }
    | .next attempts =>
      { ending := .gaveUp, tried := attempts.tried, calls := [], ram := attempts.ram }
  else
    { ending := .selfCheckFailed, tried := [], calls := [], ram }

/-! ## One attempt -/

section Attempt

variable (machine : Machine) (header : Checksumstruct) (loadretry : Nat)

/-- The copy of the image in RAM is what the flash window showed. -/
theorem bytes_copyImage (flashbank : Fin 4) (ram : Memory) :
    (copyImage machine header loadretry flashbank ram).bytes cromwellCompressTemploc
        header.compressedImageSize =
      machine.flashBytes (2 * loadretry + 1)
        (imageAddress header.compressedImageStart flashbank + 20)
        header.compressedImageSize := by
  have stored := Memory.bytes_store ram cromwellCompressTemploc
    (machine.flashBytes (2 * loadretry + 1)
      (imageAddress header.compressedImageStart flashbank + 20)
      header.compressedImageSize)
  rw [Machine.length_flashBytes] at stored
  rw [← stored]
  exact Memory.bytes_congr fun k bound => Memory.memset_outside _ (.inl (by omega))

/-- The bank recorded for Cromwell. -/
theorem writeConfig_flashbank (ram : Memory) {cromloadtry flashbank biossizeType : Nat}
    (bounded : flashbank < 2 ^ 32) :
    (writeConfig ram cromloadtry flashbank biossizeType).dword (cromwellMemoryPos + 0x28) =
      flashbank := by
  rw [writeConfig, Memory.dword_store_other _ (by simp only [length_dwordBytes]; omega),
    Memory.dword_store _ _ bounded]

/-- The hash stored in front of the image in a bank is that of the image. -/
def Matches (flashbank : Fin 4) : Prop :=
  machine.flashBytes (2 * loadretry) (imageAddress header.compressedImageStart flashbank) 20 =
    (machine.sha1 (machine.flashBytes (2 * loadretry + 1)
      (imageAddress header.compressedImageStart flashbank + 20)
      header.compressedImageSize)).toList

/-- What an attempt does: it leaves with the image of the bank it selects when
the hash matches, and otherwise only records the bank. -/
theorem attempt_cases (attempts : Attempts) :
    let flashbank := selectBank header.biossizeType loadretry attempts.flashbank
    let tried := attempts.tried ++ [flashbank]
    (Matches machine header loadretry flashbank ∧ ∃ ram,
      ram.dword (cromwellMemoryPos + 0x28) = (flashbank : Nat) + 1 ∧
      attempt machine header loadretry attempts = .leave
        { call :=
            { loadretry, flashbank
              data := machine.flashBytes (2 * loadretry + 1)
                (imageAddress header.compressedImageStart flashbank + 20)
                header.compressedImageSize }
          ram, tried }) ∨
    (¬Matches machine header loadretry flashbank ∧ ∃ ram,
      attempt machine header loadretry attempts = .next { flashbank, ram, tried }) := by
  intro flashbank tried
  have small : (flashbank : Nat) + 1 < 2 ^ 32 := by omega
  unfold attempt Matches
  simp only [bytes_copyImage]
  split
  · next equal => exact .inl ⟨equal, _, writeConfig_flashbank _ small, rfl⟩
  · next different => exact .inr ⟨different, _, rfl⟩

end Attempt

end Cromwell.Rom
