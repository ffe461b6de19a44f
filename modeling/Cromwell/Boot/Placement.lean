import Cromwell.Boot.LoadLinux
import Cromwell.Etherboot.ElfImages

/-!
# Placing a kernel

A kernel image is split at a byte of its own: the number of setup sectors. Nothing compares
that byte with the size of the image or with the room below the descriptor tables, so that
only images with a short setup that is all there are placed as they should be. What has been
placed stays there unless the image is an ELF image that is refused in the middle, with a
segment cleared in its place.
-/

namespace Cromwell.Boot

open Cromwell.Std Cromwell.Std.Program Cromwell.Etherboot

/-! ## What is copied -/

/-- One call of `memcpy`. -/
structure Copy where
  target : Nat
  source : Extent

/-- The memory after the calls of a list, in their order. -/
def performed (copies : List Copy) (memory : Memory) : Memory :=
  copies.foldl (fun memory copy =>
    memory.memcpy copy.target memory copy.source.start copy.source.length) memory

section Kernel

variable (kernelOrg : Nat) (kernelSize : UInt32) (memory : Memory)

def setupSects : Byte := memory (kernelOrg + 0x1f1)

/-- Where the protected-mode part begins in the image. -/
def setupSize : UInt32 := ((setupSects kernelOrg memory).toUInt32 + 1) * 512

def kernelCopies : List Copy :=
  [⟨kernelSetup, ⟨kernelOrg, (setupSize kernelOrg memory).toNat⟩⟩,
    ⟨kernelPmCode, ⟨kernelOrg + (setupSize kernelOrg memory).toNat,
      (kernelSize - setupSize kernelOrg memory).toNat⟩⟩]

/-- The memory in which the ELF loader finds the image. -/
def placeKernel : Memory := performed (kernelCopies kernelOrg kernelSize memory) memory

/-- The kernel is not started, and its notes do not lead in a circle. -/
def KernelReturns : Prop :=
  ElfReturns (placeKernel kernelOrg kernelSize memory) (UInt32.ofNat kernelOrg) kernelSize

/-- The memory after a kernel that is not started. -/
def kernelMemory : Memory :=
  elfRefused (placeKernel kernelOrg kernelSize memory) (UInt32.ofNat kernelOrg) kernelSize

/-- Nothing that is reserved is changed for the kernel: its setup is all there and ends below
the descriptor tables, the rest has room below the heap, and so has all that is done for an
ELF image. -/
structure KernelSpares : Prop where
  below : (setupSects kernelOrg memory).toNat ≤ 127
  whole : ((setupSects kernelOrg memory).toNat + 1) * 512 ≤ kernelSize.toNat
  room : kernelSize.toNat - ((setupSects kernelOrg memory).toNat + 1) * 512 ≤
    memoryManagerStart - kernelPmCode
  image : ElfSpares (placeKernel kernelOrg kernelSize memory) (UInt32.ofNat kernelOrg) kernelSize

/-- The memory with a kernel read into it, after the place of its setup has been cleared. -/
def kernelRead (bytes : List Byte) : Memory :=
  (memory.memset kernelSetup 0 kernelHdrSize).store initrdStart bytes

/-! ## What should be copied -/

/-- Nothing has been copied. -/
def Refused : Prop := kernelCopies kernelOrg kernelSize memory = []

end Kernel

section Placement

variable {kernelOrg : Nat} {kernelSize : UInt32} {memory : Memory}

theorem toNat_setupSize (kernelOrg : Nat) (memory : Memory) :
    (setupSize kernelOrg memory).toNat = ((setupSects kernelOrg memory).toNat + 1) * 512 := by
  have bounded := (setupSects kernelOrg memory).toNat_lt
  rw [setupSize, UInt32.toNat_mul, UInt32.toNat_add, UInt8.toNat_toUInt32]
  change ((setupSects kernelOrg memory).toNat + 1) % 2 ^ 32 * 512 % 2 ^ 32 = _
  omega

/-- The setup ends below the descriptor tables if it has at most 128 sectors with the boot
sector. -/
theorem setup_below_iff : kernelSetup + (setupSize kernelOrg memory).toNat ≤ gdtLoc ↔
    (setupSects kernelOrg memory).toNat ≤ 127 := by
  rw [toNat_setupSize]
  simp only [kernelSetup, gdtLoc]
  omega

/-- The size of the protected-mode part is exact if the setup is all there. -/
theorem toNat_sub_setupSize (whole : (setupSize kernelOrg memory).toNat ≤ kernelSize.toNat) :
    (kernelSize - setupSize kernelOrg memory).toNat =
      kernelSize.toNat - (setupSize kernelOrg memory).toNat :=
  UInt32.toNat_sub_of_le _ _ (UInt32.le_iff_toNat_le.mpr whole)

/-- The setup is clear of the descriptor tables if it ends below them. -/
theorem spares_setup_iff :
    Spares ⟨kernelSetup, (setupSize kernelOrg memory).toNat⟩ ↔
      (setupSects kernelOrg memory).toNat ≤ 127 := by
  rw [← setup_below_iff]
  have size := toNat_setupSize kernelOrg memory
  refine ⟨fun spares => ?_, fun below => spares_of_below below⟩
  by_contra beyond
  have start : kernelSetup ≤ gdtLoc := by decide
  have tables : 0 < gdtSize := by decide
  refine spares gdtLoc start (Nat.lt_of_not_le beyond) (.inl ⟨Nat.le_refl _, ?_⟩)
  exact Nat.lt_add_of_pos_right tables

/-- What the two copies change is not reserved exactly if the setup is short and all there,
and the rest has room. -/
theorem copies_spare_iff :
    Spares ⟨kernelSetup, (setupSize kernelOrg memory).toNat⟩ ∧
        Spares ⟨kernelPmCode, (kernelSize - setupSize kernelOrg memory).toNat⟩ ↔
      (setupSects kernelOrg memory).toNat ≤ 127 ∧
        ((setupSects kernelOrg memory).toNat + 1) * 512 ≤ kernelSize.toNat ∧
        kernelSize.toNat - ((setupSects kernelOrg memory).toNat + 1) * 512 ≤
          memoryManagerStart - kernelPmCode := by
  have ordered : kernelPmCode ≤ memoryManagerStart := by decide
  have small : memoryManagerStart < 2 ^ 31 := by decide
  have size := toNat_setupSize kernelOrg memory
  have bound := kernelSize.toNat_lt
  rw [spares_setup_iff, spares_iff_of_behind (Nat.le_refl _), ← size]
  refine and_congr_right fun short => ?_
  dsimp only
  by_cases whole : (setupSize kernelOrg memory).toNat ≤ kernelSize.toNat
  · rw [toNat_sub_setupSize whole, and_iff_right whole]
    omega
  · -- The difference has wrapped.
    refine iff_of_false ?_ fun fits => whole fits.1
    have wrapped := UInt32.toNat_sub kernelSize (setupSize kernelOrg memory)
    omega

/-- The state with the setup copied. -/
def setupCopied (kernelOrg : Nat) (ram : Ram) : Ram :=
  ram.move (ram.memory.memcpy kernelSetup ram.memory kernelOrg
    (setupSize kernelOrg ram.memory).toNat) ⟨kernelSetup, (setupSize kernelOrg ram.memory).toNat⟩

/-- The state in which the ELF loader is called. -/
def copied (kernelOrg : Nat) (kernelSize : UInt32) (ram : Ram) : Ram :=
  (setupCopied kernelOrg ram).move (placeKernel kernelOrg kernelSize ram.memory)
    ⟨kernelPmCode, (kernelSize - setupSize kernelOrg ram.memory).toNat⟩

theorem ensures_copied {ram : Ram} {cut : Ram → Prop} {returned : Unit → Ram → Prop} :
    (memPlaceKernel kernelOrg kernelSize).Ensures ram cut returned ↔
      (tryElfBoot (UInt32.ofNat kernelOrg) kernelSize).Ensures (copied kernelOrg kernelSize ram)
        cut returned := by
  unfold memPlaceKernel
  rw [ensures_bind, ensures_look, ensures_bind, ensures_copy, ensures_bind, ensures_copy]
  have state : (setupCopied kernelOrg ram).move ((setupCopied kernelOrg ram).memory.memcpy
      kernelPmCode (setupCopied kernelOrg ram).memory
      (kernelOrg + (setupSize kernelOrg ram.memory).toNat)
      (kernelSize - setupSize kernelOrg ram.memory).toNat)
      ⟨kernelPmCode, (kernelSize - setupSize kernelOrg ram.memory).toNat⟩ =
      copied kernelOrg kernelSize ram := by
    simp only [copied, placeKernel, performed, kernelCopies, List.foldl_cons, List.foldl_nil]
    rfl
  rw [← state]
  exact Iff.rfl

theorem respects_copied {ram : Ram} :
    ElfSpares (placeKernel kernelOrg kernelSize ram.memory) (UInt32.ofNat kernelOrg) kernelSize ∧
        (copied kernelOrg kernelSize ram).Respects ↔
      KernelSpares kernelOrg kernelSize ram.memory ∧ ram.Respects := by
  unfold copied setupCopied
  rw [respects_move, respects_move, and_left_comm (a := Spares _), ← and_assoc (a := Spares _),
    copies_spare_iff]
  constructor
  · rintro ⟨image, ⟨below, whole, room⟩, before⟩
    exact ⟨⟨below, whole, room, image⟩, before⟩
  · rintro ⟨⟨below, whole, room, image⟩, before⟩
    exact ⟨image, ⟨below, whole, room⟩, before⟩

/-- What the two copies and the ELF loader leave of the memory, and whether what is reserved
is spared. -/
theorem memPlaceKernel_ensures (kernelOrg : Nat) (kernelSize : UInt32) (ram : Ram) :
    (memPlaceKernel kernelOrg kernelSize).Ensures ram
      (fun after => ¬KernelReturns kernelOrg kernelSize ram.memory ∧
        (after.Respects ↔ KernelSpares kernelOrg kernelSize ram.memory ∧ ram.Respects))
      fun _ after => KernelReturns kernelOrg kernelSize ram.memory ∧
        after.writes = ram.writes ∧
        after.memory = kernelMemory kernelOrg kernelSize ram.memory ∧
        (after.Respects ↔ KernelSpares kernelOrg kernelSize ram.memory ∧ ram.Respects) := by
  rw [ensures_copied, ← respects_copied]
  exact tryElfBoot_ensures (UInt32.ofNat kernelOrg) kernelSize

end Placement

end Cromwell.Boot
