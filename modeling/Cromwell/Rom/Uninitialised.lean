import Cromwell.Rom.XbeRepair

/-!
# What the buffers held before

`xberepair` clears four bytes of its buffer. Where the template ends before the file that is
written does, the bytes between it and the ROM and those that the ROM is filled up with are
what the buffer happened to hold. Two repairs of the same files write the same file only if
the template is as long as that file.
-/

namespace Cromwell.Rom

open Cromwell.Std Cromwell.Crypt

/-! ## Memories that agree up to an address -/

/-- The memories have the same bytes in front of an address. -/
def AgreeBelow (bound : Nat) (first second : Memory) : Prop := ∀ x < bound, first x = second x

namespace AgreeBelow

variable {bound : Nat} {first second : Memory}

theorem store (agree : AgreeBelow bound first second) (address : Nat) (values : List Byte) :
    AgreeBelow bound (first.store address values) (second.store address values) := by
  intro x below
  unfold Memory.store
  rw [agree x below]

theorem bytes (agree : AgreeBelow bound first second) {address count : Nat}
    (inside : address + count ≤ bound) : first.bytes address count = second.bytes address count :=
  Memory.bytes_congr fun k _ => agree (address + k) (by omega)

theorem dword (agree : AgreeBelow bound first second) {address : Nat}
    (inside : address + 4 ≤ bound) : first.dword address = second.dword address :=
  Memory.dword_congr fun k _ => agree (address + k) (by omega)

end AgreeBelow

/-! ## Repairs of long templates -/

/-- Two runs write the same file, whatever the buffers and the locals held before. -/
def WritesSame (xbeimage cromimage : File) : Prop :=
  ∀ unset unset' : Unset, ∃ written,
    xberepair unset (some xbeimage) (some cromimage) = .ok written ∧
      xberepair unset' (some xbeimage) (some cromimage) = .ok written

/-- All that is read back of a buffer that held zeros lies within the template, and every
access in the buffer. -/
structure Covered (xbeimage cromimage : File) : Prop where
  header : sectionsOffset + 4 ≤ (readXbe xbeimage).length
  sechdr : Repair.sechdr ⟨zeroUnset, xbeimage, cromimage⟩ + sectionHeaderSize ≤
    (readXbe xbeimage).length
  hashed : Repair.fileAddress ⟨zeroUnset, xbeimage, cromimage⟩ +
    Repair.fileSize ⟨zeroUnset, xbeimage, cromimage⟩ ≤ (readXbe xbeimage).length
  written : Repair.xbesize ⟨zeroUnset, xbeimage, cromimage⟩ ≤ (readXbe xbeimage).length
  inBounds : Repair.InBounds ⟨zeroUnset, xbeimage, cromimage⟩

section Agreement

variable {xbeimage cromimage : File}

/-- In front of the end of the template the buffer holds bytes of the files. -/
theorem loaded_agree (unset unset' : Unset) (xbeimage cromimage : File) :
    AgreeBelow (readXbe xbeimage).length (Repair.loaded ⟨unset, xbeimage, cromimage⟩)
      (Repair.loaded ⟨unset', xbeimage, cromimage⟩) := by
  unfold Repair.loaded Repair.romsize
  dsimp only
  refine AgreeBelow.store ?_ _ _
  intro x below
  by_cases inside : romOffset ≤ x ∧ x < romOffset + cromimage.length % 0x100000000
  · have bound : 0 + (x - romOffset) - 0 < (readRom cromimage).length := by
      rw [length_readRom]
      omega
    rw [Memory.memcpy_inside _ _ inside.1 inside.2, Memory.memcpy_inside _ _ inside.1 inside.2,
      Memory.store_inside _ (Nat.zero_le _) bound, Memory.store_inside _ (Nat.zero_le _) bound]
  · have outside : x < romOffset ∨ romOffset + cromimage.length % 0x100000000 ≤ x := by omega
    rw [Memory.memcpy_outside _ _ outside, Memory.memcpy_outside _ _ outside,
      Memory.store_inside _ (Nat.zero_le x) below, Memory.store_inside _ (Nat.zero_le x) below]

variable (covered : Covered xbeimage cromimage) (unset : Unset)

include covered

theorem Covered.sechdr_eq : Repair.sechdr ⟨unset, xbeimage, cromimage⟩ =
    Repair.sechdr ⟨zeroUnset, xbeimage, cromimage⟩ := by
  have agree := loaded_agree unset zeroUnset xbeimage cromimage
  have header := covered.header
  unfold sectionsOffset at header
  have sections := agree.dword (show sectionsOffset + 4 ≤ _ by unfold sectionsOffset; omega)
  have base := agree.dword (show baseAddressOffset + 4 ≤ _ by unfold baseAddressOffset; omega)
  unfold Repair.sechdr sectionHeader
  rw [sections, base]

theorem Covered.sized_agree : AgreeBelow (readXbe xbeimage).length
    (Repair.sized ⟨unset, xbeimage, cromimage⟩)
    (Repair.sized ⟨zeroUnset, xbeimage, cromimage⟩) := by
  unfold Repair.sized
  rw [covered.sechdr_eq unset]
  exact (((loaded_agree unset zeroUnset xbeimage cromimage).store _ _).store _ _).store _ _

theorem Covered.fileAddress_eq : Repair.fileAddress ⟨unset, xbeimage, cromimage⟩ =
    Repair.fileAddress ⟨zeroUnset, xbeimage, cromimage⟩ := by
  have inside := covered.sechdr
  unfold sectionHeaderSize at inside
  unfold Repair.fileAddress
  rw [covered.sechdr_eq unset]
  exact (covered.sized_agree unset).dword (by unfold fileAddressOffset; omega)

theorem Covered.fileSize_eq : Repair.fileSize ⟨unset, xbeimage, cromimage⟩ =
    Repair.fileSize ⟨zeroUnset, xbeimage, cromimage⟩ := by
  have inside := covered.sechdr
  unfold sectionHeaderSize at inside
  unfold Repair.fileSize
  rw [covered.sechdr_eq unset]
  exact (covered.sized_agree unset).dword (by unfold fileSizeOffset; omega)

/-- The locals of the hash do not matter either. -/
theorem Covered.digest_eq : Repair.digest ⟨unset, xbeimage, cromimage⟩ =
    Repair.digest ⟨zeroUnset, xbeimage, cromimage⟩ := by
  have short : (Memory.bytes (Repair.sized ⟨zeroUnset, xbeimage, cromimage⟩)
      (Repair.fileAddress ⟨zeroUnset, xbeimage, cromimage⟩)
      (Repair.fileSize ⟨zeroUnset, xbeimage, cromimage⟩)).length < 2 ^ 32 := by
    rw [Memory.length_bytes]
    exact Memory.dword_lt _ _
  unfold Repair.digest
  rw [covered.fileAddress_eq unset, covered.fileSize_eq unset,
    (covered.sized_agree unset).bytes covered.hashed, shax_eq _ _ _ short, shax_eq _ _ _ short]

theorem Covered.inBounds_unset : Repair.InBounds ⟨unset, xbeimage, cromimage⟩ := by
  have inBounds := covered.inBounds
  unfold Repair.InBounds Repair.accesses at inBounds ⊢
  rw [covered.sechdr_eq unset, covered.fileAddress_eq unset, covered.fileSize_eq unset]
  exact inBounds

theorem Covered.written_eq : Repair.written ⟨unset, xbeimage, cromimage⟩ =
    Repair.written ⟨zeroUnset, xbeimage, cromimage⟩ := by
  have agree : AgreeBelow (readXbe xbeimage).length
      (Repair.repaired ⟨unset, xbeimage, cromimage⟩)
      (Repair.repaired ⟨zeroUnset, xbeimage, cromimage⟩) := by
    unfold Repair.repaired
    rw [covered.sechdr_eq unset, covered.digest_eq unset]
    exact (covered.sized_agree unset).store _ _
  have inside : 0 + Repair.xbesize ⟨unset, xbeimage, cromimage⟩ ≤ (readXbe xbeimage).length := by
    rw [Nat.zero_add]
    exact covered.written
  exact agree.bytes inside

/-- Then it does not matter what the buffers held. -/
theorem Covered.writesSame (accepted : cromimage.length ≤ cromBufferSize) :
    WritesSame xbeimage cromimage := by
  intro unset unset'
  refine ⟨Repair.written ⟨zeroUnset, xbeimage, cromimage⟩, ?_, ?_⟩
  · rw [xberepair_eq unset accepted, if_pos (covered.inBounds_unset unset),
      covered.written_eq unset]
  · rw [xberepair_eq unset' accepted, if_pos (covered.inBounds_unset unset'),
      covered.written_eq unset']

end Agreement

/-! ## Templates -/

section Templates

variable {xbeimage cromimage : File} (template : Template xbeimage)
  (accepted : cromimage.length ≤ cromBufferSize)

theorem length_readXbe (xbeimage : File) :
    (readXbe xbeimage).length = xbeimage.length % 0x100000000 := by
  unfold readXbe
  rw [List.length_take, Nat.min_eq_left (Nat.mod_le _ _)]

include template accepted

/-- A template that is as long as the file written covers it. -/
theorem Template.covered (long : romOffset + filledSize cromimage.length ≤
      xbeimage.length % 0x100000000)
    (fits : xbeimage.length % 0x100000000 ≤ xbeBufferSize) : Covered xbeimage cromimage := by
  have size := @Repair.xbesize_eq ⟨zeroUnset, xbeimage, cromimage⟩ accepted
  have fileSize := @Repair.fileSize_eq ⟨zeroUnset, xbeimage, cromimage⟩ accepted
  have fileAddress := @Template.fileAddress_eq ⟨zeroUnset, xbeimage, cromimage⟩ template
  have sechdr := @Template.sechdr_eq ⟨zeroUnset, xbeimage, cromimage⟩ template
  dsimp only at size fileSize sechdr
  rw [filledSize_eq accepted] at long
  unfold romOffset at long size
  have bounds := @Template.inBounds_iff ⟨zeroUnset, xbeimage, cromimage⟩ template accepted
  constructor
  · exact template.header
  · rw [sechdr]
    exact template.present
  · rw [fileAddress, fileSize, length_readXbe]
    omega
  · rw [size, length_readXbe]
    omega
  · refine bounds.mpr ⟨fits, ?_⟩
    unfold xbeBufferSize at fits
    dsimp only
    omega

/-- The last byte that is written is behind the ROM and the headers. -/
theorem Template.repaired_last (unset : Unset)
    (short : xbeimage.length % 0x100000000 < romOffset + filledSize cromimage.length) :
    Repair.repaired ⟨unset, xbeimage, cromimage⟩
        (romOffset + filledSize cromimage.length - 1) =
      unset.xbe (romOffset + filledSize cromimage.length - 1) := by
  have romsize := @Repair.romsize_eq ⟨unset, xbeimage, cromimage⟩ accepted
  dsimp only at romsize
  rw [filledSize_eq accepted] at short ⊢
  unfold romOffset at short ⊢
  rw [@Template.repaired_loaded ⟨unset, xbeimage, cromimage⟩ template _ (by omega),
    Repair.loaded_unset]
  · rw [length_readXbe]
    dsimp only
    omega
  · omega
  · unfold romsizeOffset
    omega
  · unfold romOffset
    omega

/-- So a shorter template lets what the buffer held through. -/
theorem Template.not_writesSame
    (short : xbeimage.length % 0x100000000 < romOffset + filledSize cromimage.length) :
    ¬WritesSame xbeimage cromimage := by
  intro same
  have last : ∀ unset written, xberepair unset (some xbeimage) (some cromimage) = .ok written →
      fileMemory written (romOffset + filledSize cromimage.length - 1) =
        unset.xbe (romOffset + filledSize cromimage.length - 1) := by
    intro unset written run
    rw [xberepair_eq unset accepted] at run
    split at run
    · cases run
      have size := @Repair.xbesize_eq ⟨unset, xbeimage, cromimage⟩ accepted
      have inside : romOffset + filledSize cromimage.length - 1 <
          Repair.xbesize ⟨unset, xbeimage, cromimage⟩ := by
        rw [size, filledSize_eq accepted]
        dsimp only
        omega
      exact (fileMemory_bytes inside).trans (template.repaired_last accepted unset short)
    · cases run
  obtain ⟨written, first, second⟩ := same zeroUnset { zeroUnset with xbe := fun _ => 1 }
  have differ : (0 : Byte) = 1 := (last _ _ first).symm.trans (last _ _ second)
  exact absurd differ (by decide)

end Templates

/-- Two repairs of the same files write the same file if the template covers all that is
hashed or written, and for a template of the usual form only then: exactly if it is at least
as long as the file that is written, and fits in its buffer. -/
theorem xberepair_writesSame_iff {xbeimage cromimage : File}
    (accepted : cromimage.length ≤ cromBufferSize) :
    (Covered xbeimage cromimage → WritesSame xbeimage cromimage) ∧
      (Template xbeimage → (WritesSame xbeimage cromimage ↔
        romOffset + filledSize cromimage.length ≤ xbeimage.length % 0x100000000 ∧
          xbeimage.length % 0x100000000 ≤ xbeBufferSize)) := by
  refine ⟨fun covered => covered.writesSame accepted, fun template => ?_⟩
  constructor
  · intro same
    constructor
    · by_contra short
      exact template.not_writesSame accepted (Nat.not_le.mp short) same
    · obtain ⟨written, run, -⟩ := same zeroUnset zeroUnset
      rw [xberepair_eq zeroUnset accepted] at run
      split at run
      · next inBounds =>
        exact ((@Template.inBounds_iff ⟨zeroUnset, xbeimage, cromimage⟩ template accepted).mp
          inBounds).1
      · cases run
  · rintro ⟨long, fits⟩
    exact (template.covered accepted long fits).writesSame accepted

theorem xberepair_writesSame_iff_smallTemplate :
    (Covered smallTemplate [0x55, 0xaa] → WritesSame smallTemplate [0x55, 0xaa]) ∧
      (Template smallTemplate → (WritesSame smallTemplate [0x55, 0xaa] ↔
        romOffset + filledSize [0x55, 0xaa].length ≤ smallTemplate.length % 0x100000000 ∧
          smallTemplate.length % 0x100000000 ≤ xbeBufferSize)) :=
  xberepair_writesSame_iff (by decide)

/-- The small template ends in front of the ROM. -/
theorem not_xberepair_writesSame : ¬∀ xbeimage cromimage : File,
    cromimage.length ≤ cromBufferSize → WritesSame xbeimage cromimage := by
  intro same
  have accepted : ([0x55, 0xaa] : File).length ≤ cromBufferSize := by decide
  have length : smallTemplate.length = 0x1b8 := Memory.length_bytes _ _ _
  refine template_smallTemplate.not_writesSame accepted ?_ (same _ _ accepted)
  rw [length]
  decide

end Cromwell.Rom
