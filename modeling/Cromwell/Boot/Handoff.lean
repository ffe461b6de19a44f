import Cromwell.Boot.StartReactOS

/-!
# Handing over to the ReactOS boot loader

Which memory the boot loader should find, and when it does. The header has to stay as it is
while it is still read, the image must not be overwritten before it has been moved, and an
image without an end must not have a bss.
-/

namespace Cromwell.Boot

open Cromwell.Std Cromwell.Lib

/-- Two ranges have no address in common. -/
def Apart (first second : Extent) : Prop :=
  first.start + first.length ≤ second.start ∨ second.start + second.length ≤ first.start

/-! ## What should be found -/

section Image

variable (memory : Memory) (mbHeader : Nat) (loaderSize xboxRam : UInt32)

/-- The end of the file in the load area. -/
def fileEnd : Nat := freeldrLoadArea + loaderSize.toNat

/-- The place of the image in the load area. -/
def imageStart : Nat := mbHeader - (headerAddr memory mbHeader - loadAddr memory mbHeader)

/-- The end of the image where it is moved to. Without one it is the rest of the file. -/
def imageEnd : Nat :=
  if loadEndAddr memory mbHeader = 0 then
    loadAddr memory mbHeader + (fileEnd loaderSize - imageStart memory mbHeader)
  else loadEndAddr memory mbHeader

/-- How much of the image there is in the file. -/
def imageLength : Nat :=
  min (imageEnd memory mbHeader loaderSize - loadAddr memory mbHeader)
    (fileEnd loaderSize - imageStart memory mbHeader)

/-- The header has been found in the file, which the image begins in, and its addresses are
ordered and in memory. -/
structure Accepted : Prop where
  found : checkMultibootHeader memory freeldrLoadArea = some mbHeader
  inFile : mbHeader + 32 ≤ fileEnd loaderSize
  ordered : loadAddr memory mbHeader ≤ headerAddr memory mbHeader
  starts : headerAddr memory mbHeader - loadAddr memory mbHeader ≤ mbHeader - freeldrLoadArea
  load_end : loadEndAddr memory mbHeader = 0 ∨
    loadAddr memory mbHeader < loadEndAddr memory mbHeader
  bss_end : bssEndAddr memory mbHeader = 0 ∨
    imageEnd memory mbHeader loaderSize ≤ bssEndAddr memory mbHeader
  ram : xboxRam = 64 ∨ xboxRam = 128
  inRam : fileEnd loaderSize ≤ xboxRam.toNat * 0x100000 ∧
    imageEnd memory mbHeader loaderSize ≤ xboxRam.toNat * 0x100000 ∧
      bssEndAddr memory mbHeader ≤ xboxRam.toNat * 0x100000

/-- The image is where it belongs, with zeros behind it, and it is entered where it says. -/
structure Placed (jump : Jump) : Prop where
  image : ∀ k, k < imageLength memory mbHeader loaderSize →
    jump.memory (loadAddr memory mbHeader + k) = memory (imageStart memory mbHeader + k)
  bss : bssEndAddr memory mbHeader ≠ 0 → ∀ x, imageEnd memory mbHeader loaderSize ≤ x →
    x < bssEndAddr memory mbHeader → jump.memory x = 0
  entry : jump.entry = entryAddr memory mbHeader

/-! ## When it is found -/

/-- The length that is copied. -/
def copyLength : Nat :=
  if loadEndAddr memory mbHeader = 0 then loaderSize.toNat
  else loadEndAddr memory mbHeader - loadAddr memory mbHeader

/-- The fields that are read once the image has been moved. -/
def laterFields : List Nat :=
  if bssEndAddr memory mbHeader = 0 then [16, 24, 28] else [20, 24, 28]

/-- The header stays as it is while it is read: neither the image, nor its bss, nor the
information is put over a field that is still needed. -/
structure HeaderKept : Prop where
  copy : loadAddr memory mbHeader = imageStart memory mbHeader ∨
    ∀ offset ∈ laterFields memory mbHeader, Apart ⟨mbHeader + offset, 4⟩
      ⟨loadAddr memory mbHeader, copyLength memory mbHeader loaderSize⟩
  clear : bssEndAddr memory mbHeader ≠ 0 → loadEndAddr memory mbHeader ≠ 0 →
    ∀ offset ∈ [24, 28], Apart ⟨mbHeader + offset, 4⟩
      ⟨loadEndAddr memory mbHeader,
        bssEndAddr memory mbHeader - loadEndAddr memory mbHeader⟩
  info : bssEndAddr memory mbHeader = 0 ∨ loadEndAddr memory mbHeader ≠ 0 →
    Apart ⟨mbHeader + 28, 4⟩
      ⟨infoPtr memory mbHeader loaderSize.toNat, infoLength xboxRam.toNat⟩

/-- No byte of the image is lost before it is moved: what the copy has been put over was the
same, and what is cleared for the descriptor table was zero. -/
def Intact : Prop :=
  ∀ k, k < imageLength memory mbHeader loaderSize →
    if Overwritten (loadAddr memory mbHeader) (imageStart memory mbHeader)
        (copyLength memory mbHeader loaderSize) k then
      memory (imageStart memory mbHeader +
        (imageStart memory mbHeader + k - loadAddr memory mbHeader)) =
          memory (imageStart memory mbHeader + k)
    else Apart ⟨imageStart memory mbHeader + k, 1⟩ ⟨idtLoc, 8 * 1024⟩ ∨
      memory (imageStart memory mbHeader + k) = 0

end Image

/-! ## Accepted headers -/

/-- Where a header is found, and what makes it one. -/
theorem checkMultibootHeader_spec {memory : Memory} {buffer mbHeader : Nat}
    (found : checkMultibootHeader memory buffer = some mbHeader) :
    (buffer ≤ mbHeader ∧ mbHeader < buffer + multibootSearchareaLen) ∧
      memory.dword mbHeader = multibootHeaderMagic ∧
        (multibootHeaderMagic + memory.dword (mbHeader + 4) + memory.dword (mbHeader + 8)) %
          2 ^ 32 = 0 := by
  have checked := List.find?_some found
  obtain ⟨k, member, rfl⟩ := List.mem_map.mp (List.mem_of_find?_eq_some found)
  have bound : k < multibootSearchareaLen / 4 := List.mem_range.mp member
  obtain ⟨magic, sum⟩ := decide_eq_true_iff.mp checked
  rw [magic] at sum
  refine ⟨⟨Nat.le_add_right _ _, ?_⟩, magic, sum⟩
  unfold multibootSearchareaLen at bound ⊢
  omega

theorem sub32_of_le {first second : Nat} (ordered : second ≤ first) (bounded : first < 2 ^ 32) :
    sub32 first second = first - second := by
  unfold sub32
  omega

section Accepted

variable {memory : Memory} {mbHeader : Nat} {loaderSize xboxRam : UInt32}

/-- The bounds of an accepted image as numbers. -/
theorem Accepted.bounds (accepted : Accepted memory mbHeader loaderSize xboxRam) :
    (0x1000 ≤ imageStart memory mbHeader ∧ imageStart memory mbHeader ≤ mbHeader) ∧
      mbHeader < 0x3000 ∧ mbHeader + 32 ≤ 0x1000 + loaderSize.toNat ∧
        loaderSize.toNat < 2 ^ 27 := by
  obtain ⟨⟨lower, upper⟩, -⟩ := checkMultibootHeader_spec accepted.found
  have ram : xboxRam.toNat ≤ 128 := by
    rcases accepted.ram with rfl | rfl <;> decide
  have file := accepted.inRam.1
  have inFile := accepted.inFile
  have starts := accepted.starts
  unfold fileEnd at file inFile
  unfold imageStart
  unfold freeldrLoadArea at *
  unfold multibootSearchareaLen at upper
  omega

/-- Clearing the descriptor table leaves the header alone. -/
theorem Accepted.idt (accepted : Accepted memory mbHeader loaderSize xboxRam) (offset : Nat)
    (inner : offset ≤ 28) :
    (memory.memset idtLoc 0 (8 * 1024)).dword (mbHeader + offset) =
      memory.dword (mbHeader + offset) := by
  obtain ⟨-, early, -⟩ := accepted.bounds
  apply Memory.dword_memset_other
  unfold idtLoc
  omega

/-- The memory once the image has been moved. -/
def moved (memory : Memory) (mbHeader : Nat) (loaderSize : UInt32) : Memory :=
  memcpy (memory.memset idtLoc 0 (8 * 1024)) (loadAddr memory mbHeader)
    (imageStart memory mbHeader) (copyLength memory mbHeader loaderSize)

/-- What is copied from where. -/
theorem Accepted.copyImage_eq (accepted : Accepted memory mbHeader loaderSize xboxRam) :
    copyImage (memory.memset idtLoc 0 (8 * 1024)) mbHeader loaderSize.toNat =
      moved memory mbHeader loaderSize := by
  obtain ⟨-, early, -⟩ := accepted.bounds
  have header := accepted.idt 12 (by omega)
  have load := accepted.idt 16 (by omega)
  have load_end := accepted.idt 20 (by omega)
  have ordered := accepted.ordered
  have starts := accepted.starts
  have ends := accepted.load_end
  have header_lt := memory.dword_lt (mbHeader + 12)
  have end_lt := memory.dword_lt (mbHeader + 20)
  unfold copyImage moved imageStart copyLength
  unfold headerAddr loadAddr loadEndAddr at *
  rw [header, load, load_end, sub32_of_le ordered header_lt, sub32_of_le (by omega) (by omega)]
  congr 1
  by_cases zero : memory.dword (mbHeader + 20) = 0
  · rw [if_pos zero, zero, if_neg (Nat.lt_irrefl 0)]
  · rw [if_neg zero, if_pos (by omega), sub32_of_le (by omega) end_lt]

/-- The memory once the bss has been cleared. -/
def cleared (memory : Memory) (mbHeader : Nat) (loaderSize : UInt32) : Memory :=
  if bssEndAddr memory mbHeader = 0 then moved memory mbHeader loaderSize
  else (moved memory mbHeader loaderSize).memset (loadEndAddr memory mbHeader) 0
    (bssEndAddr memory mbHeader - loadEndAddr memory mbHeader)

theorem laterFields_le {offset : Nat} (member : offset ∈ laterFields memory mbHeader) :
    offset ≤ 28 := by
  unfold laterFields at member
  split at member <;> simp at member <;> omega

/-- Fields that are still read have not been overwritten by the image. -/
theorem HeaderKept.fields_moved (kept : HeaderKept memory mbHeader loaderSize xboxRam)
    (accepted : Accepted memory mbHeader loaderSize xboxRam) {offset : Nat}
    (later : offset ∈ laterFields memory mbHeader) :
    (moved memory mbHeader loaderSize).dword (mbHeader + offset) =
      memory.dword (mbHeader + offset) := by
  rw [← accepted.idt _ (laterFields_le later)]
  unfold moved
  rcases kept.copy with same | apart
  · rw [← same, memcpy_self]
  · have outside := apart offset later
    dsimp only [Apart] at outside
    exact Memory.dword_congr fun k bound => memcpy_outside (by omega)

theorem HeaderKept.clearBss_eq (kept : HeaderKept memory mbHeader loaderSize xboxRam)
    (accepted : Accepted memory mbHeader loaderSize xboxRam) :
    clearBss (moved memory mbHeader loaderSize) mbHeader =
      cleared memory mbHeader loaderSize := by
  have bss_kept : bssEndAddr (moved memory mbHeader loaderSize) mbHeader =
      bssEndAddr memory mbHeader :=
    kept.fields_moved accepted (by unfold laterFields; split <;> simp)
  unfold clearBss cleared
  rw [bss_kept]
  by_cases none : bssEndAddr memory mbHeader = 0
  · rw [if_pos none, none, if_neg (Nat.lt_irrefl 0)]
  · have end_kept : loadEndAddr (moved memory mbHeader loaderSize) mbHeader =
        loadEndAddr memory mbHeader :=
      kept.fields_moved accepted (by unfold laterFields; simp [none])
    have bss_lt : bssEndAddr memory mbHeader < 2 ^ 32 := memory.dword_lt (mbHeader + 24)
    have ordered : loadEndAddr memory mbHeader ≤ bssEndAddr memory mbHeader := by
      have behind := accepted.bss_end.resolve_left none
      unfold imageEnd at behind
      split at behind <;> omega
    rw [if_neg none, if_pos (Nat.pos_of_ne_zero none), end_kept, sub32_of_le ordered bss_lt]

/-- Fields that are still read have not been cleared either. -/
theorem HeaderKept.fields_cleared (kept : HeaderKept memory mbHeader loaderSize xboxRam)
    (accepted : Accepted memory mbHeader loaderSize xboxRam)
    (ended : bssEndAddr memory mbHeader = 0 ∨ loadEndAddr memory mbHeader ≠ 0) {offset : Nat}
    (later : offset ∈ laterFields memory mbHeader) (used : offset ≠ 20) :
    (cleared memory mbHeader loaderSize).dword (mbHeader + offset) =
      memory.dword (mbHeader + offset) := by
  rw [← kept.fields_moved accepted later]
  unfold cleared
  split
  · rfl
  · next some_bss =>
    have inner : offset ∈ [24, 28] := by
      simpa [laterFields, some_bss, used] using later
    have apart := kept.clear some_bss (ended.resolve_left some_bss) offset inner
    dsimp only [Apart] at apart
    exact Memory.dword_memset_other _ (by omega)

/-- The information goes where the header says. -/
theorem HeaderKept.infoPtr_eq (kept : HeaderKept memory mbHeader loaderSize xboxRam)
    (accepted : Accepted memory mbHeader loaderSize xboxRam)
    (ended : bssEndAddr memory mbHeader = 0 ∨ loadEndAddr memory mbHeader ≠ 0) :
    infoPtr (cleared memory mbHeader loaderSize) mbHeader loaderSize.toNat =
      infoPtr memory mbHeader loaderSize.toNat := by
  have bss_kept : bssEndAddr (cleared memory mbHeader loaderSize) mbHeader =
      bssEndAddr memory mbHeader :=
    kept.fields_cleared accepted ended (by unfold laterFields; split <;> simp) (by omega)
  unfold infoPtr
  rw [bss_kept]
  by_cases none : bssEndAddr memory mbHeader = 0
  · have load_kept : loadAddr (cleared memory mbHeader loaderSize) mbHeader =
        loadAddr memory mbHeader :=
      kept.fields_cleared accepted ended (by unfold laterFields; simp [none]) (by omega)
    rw [if_pos none, if_pos none, load_kept]
  · rw [if_neg none, if_neg none]

theorem infoPtr_aligned (memory : Memory) (mbHeader ldrSize : Nat) :
    infoPtr memory mbHeader ldrSize % 4 = 0 := by
  unfold infoPtr
  dsimp only
  rw [and_highMask 32 2 (by omega) (Nat.mod_lt _ (by omega))]
  omega

/-- The information is behind the image and its bss. -/
theorem Accepted.infoPtr_ge (accepted : Accepted memory mbHeader loaderSize xboxRam) :
    (if bssEndAddr memory mbHeader = 0 then loadAddr memory mbHeader + loaderSize.toNat
      else bssEndAddr memory mbHeader) ≤ infoPtr memory mbHeader loaderSize.toNat := by
  obtain ⟨⟨low, high⟩, early, inFile, small⟩ := accepted.bounds
  obtain ⟨file, image, bss⟩ := accepted.inRam
  have ram : xboxRam.toNat ≤ 128 := by
    rcases accepted.ram with rfl | rfl <;> decide
  have load_lt : loadAddr memory mbHeader < 2 ^ 31 := by
    have ends := accepted.load_end
    unfold imageEnd at image
    split at image <;> omega
  unfold infoPtr
  dsimp only
  rw [and_highMask 32 2 (by omega) (by omega)]
  split <;> omega

/-- The image is entered from the memory with its bss cleared. -/
theorem HeaderKept.startReactOS_eq (kept : HeaderKept memory mbHeader loaderSize xboxRam)
    (accepted : Accepted memory mbHeader loaderSize xboxRam) (bootDevice : UInt32) :
    startReactOS memory mbHeader loaderSize bootDevice xboxRam =
      enter (cleared memory mbHeader loaderSize) mbHeader loaderSize bootDevice xboxRam := by
  unfold startReactOS
  dsimp only
  rw [accepted.copyImage_eq, kept.clearBss_eq accepted]

/-- Below the information nothing changes any more, and the entry is the header's. -/
theorem HeaderKept.entered (kept : HeaderKept memory mbHeader loaderSize xboxRam)
    (accepted : Accepted memory mbHeader loaderSize xboxRam) (bootDevice : UInt32)
    (ended : bssEndAddr memory mbHeader = 0 ∨ loadEndAddr memory mbHeader ≠ 0) :
    (∀ x, x < infoPtr memory mbHeader loaderSize.toNat →
      (startReactOS memory mbHeader loaderSize bootDevice xboxRam).memory x =
        cleared memory mbHeader loaderSize x) ∧
      (startReactOS memory mbHeader loaderSize bootDevice xboxRam).entry =
        entryAddr memory mbHeader := by
  have apart := kept.info ended
  dsimp only [Apart] at apart
  rw [kept.startReactOS_eq accepted]
  unfold enter
  rw [kept.infoPtr_eq accepted ended]
  refine ⟨fun x before => Memory.store_outside _ (.inl before), ?_⟩
  unfold entryAddr
  dsimp only
  rw [Memory.dword_store_other _ (by rw [length_information]; omega)]
  exact kept.fields_cleared accepted ended (by unfold laterFields; split <;> simp) (by omega)

/-- The copy brings every byte of the image to its place if and only if none is lost. -/
theorem Accepted.moved_iff (accepted : Accepted memory mbHeader loaderSize xboxRam) :
    (∀ k, k < imageLength memory mbHeader loaderSize →
      moved memory mbHeader loaderSize (loadAddr memory mbHeader + k) =
        memory (imageStart memory mbHeader + k)) ↔ Intact memory mbHeader loaderSize := by
  have bound : imageLength memory mbHeader loaderSize ≤ copyLength memory mbHeader loaderSize := by
    obtain ⟨⟨low, -⟩, -⟩ := accepted.bounds
    unfold imageLength imageEnd copyLength fileEnd freeldrLoadArea
    split <;> omega
  unfold moved
  rw [memcpy_iff (fun k => memory (imageStart memory mbHeader + k)) bound]
  unfold Intact
  refine forall₂_congr fun k _ => ?_
  split
  · exact Iff.rfl
  · by_cases apart : Apart ⟨imageStart memory mbHeader + k, 1⟩ ⟨idtLoc, 8 * 1024⟩
    · refine iff_of_true ?_ (.inl apart)
      dsimp only [Apart] at apart
      exact Memory.memset_outside _ (by omega)
    · rw [or_iff_right apart]
      dsimp only [Apart] at apart
      rw [Memory.memset_inside _ (by omega) (by omega)]
      exact eq_comm

/-- An image with an end, or without a bss, is placed if and only if none of it is lost. -/
theorem HeaderKept.placed_iff (kept : HeaderKept memory mbHeader loaderSize xboxRam)
    (accepted : Accepted memory mbHeader loaderSize xboxRam) (bootDevice : UInt32)
    (ended : bssEndAddr memory mbHeader = 0 ∨ loadEndAddr memory mbHeader ≠ 0) :
    Placed memory mbHeader loaderSize
        (startReactOS memory mbHeader loaderSize bootDevice xboxRam) ↔
      Intact memory mbHeader loaderSize := by
  obtain ⟨below, entry⟩ := kept.entered accepted bootDevice ended
  have behind := accepted.infoPtr_ge
  have image : ∀ k, k < imageLength memory mbHeader loaderSize →
      (startReactOS memory mbHeader loaderSize bootDevice xboxRam).memory
          (loadAddr memory mbHeader + k) =
        moved memory mbHeader loaderSize (loadAddr memory mbHeader + k) := by
    intro k inner
    obtain ⟨⟨low, -⟩, -⟩ := accepted.bounds
    have inImage : loadAddr memory mbHeader + k < imageEnd memory mbHeader loaderSize := by
      unfold imageLength at inner
      omega
    have inFile : k < loaderSize.toNat := by
      unfold imageLength fileEnd freeldrLoadArea at inner
      omega
    have ordered := accepted.bss_end
    rw [below _ (by split at behind <;> omega)]
    unfold cleared
    split
    · rfl
    · next some_bss =>
      unfold imageEnd at inImage
      rw [if_neg (ended.resolve_left some_bss)] at inImage
      exact Memory.memset_outside _ (.inl inImage)
  rw [← accepted.moved_iff]
  constructor
  · intro placed k inner
    rw [← image k inner]
    exact placed.image k inner
  · intro copied
    refine ⟨fun k inner => (image k inner).trans (copied k inner), ?_, entry⟩
    intro some_bss x lower upper
    rw [if_neg some_bss] at behind
    rw [below x (by omega)]
    unfold cleared
    unfold imageEnd at lower
    rw [if_neg (ended.resolve_left some_bss)] at lower
    rw [if_neg some_bss]
    exact Memory.memset_inside _ lower (by omega)

/-- An image that is the rest of the file has the header in it. -/
theorem Accepted.header_inner (accepted : Accepted memory mbHeader loaderSize xboxRam)
    (unended : loadEndAddr memory mbHeader = 0) {k : Nat} (bound : k < 32) :
    headerAddr memory mbHeader - loadAddr memory mbHeader + k <
        imageLength memory mbHeader loaderSize ∧
      headerAddr memory mbHeader + k < imageEnd memory mbHeader loaderSize ∧
        imageStart memory mbHeader +
          (headerAddr memory mbHeader - loadAddr memory mbHeader) = mbHeader := by
  obtain ⟨⟨low, high⟩, -, inFile, -⟩ := accepted.bounds
  have ordered := accepted.ordered
  have starts := accepted.starts
  unfold imageLength imageEnd
  rw [if_pos unended, Nat.add_sub_cancel_left, Nat.min_self]
  unfold imageStart fileEnd freeldrLoadArea at *
  omega

/-- Without an end of the image everything from address zero on is cleared, the image as
well. -/
theorem HeaderKept.not_placed (kept : HeaderKept memory mbHeader loaderSize xboxRam)
    (accepted : Accepted memory mbHeader loaderSize xboxRam) (bootDevice : UInt32)
    (some_bss : bssEndAddr memory mbHeader ≠ 0) (unended : loadEndAddr memory mbHeader = 0) :
    ¬Placed memory mbHeader loaderSize
      (startReactOS memory mbHeader loaderSize bootDevice xboxRam) := by
  intro placed
  have behind := accepted.bss_end.resolve_left some_bss
  have image := placed.image
  rw [kept.startReactOS_eq accepted] at image
  unfold enter at image
  dsimp only at image
  have zeros : ∀ k, k < 12 →
      cleared memory mbHeader loaderSize (headerAddr memory mbHeader + k) = 0 := by
    intro k bound
    obtain ⟨-, inner, -⟩ := accepted.header_inner unended (Nat.lt_trans bound (by decide : 12 < 32))
    unfold cleared
    rw [if_neg some_bss, unended]
    exact Memory.memset_inside _ (Nat.zero_le _) (by omega)
  have aligned : infoPtr (cleared memory mbHeader loaderSize) mbHeader loaderSize.toNat % 4 = 0 :=
    infoPtr_aligned _ _ _
  generalize infoPtr (cleared memory mbHeader loaderSize) mbHeader loaderSize.toNat = mbInfo
    at image aligned
  have word : ∀ offset, offset ≤ 28 →
      ((cleared memory mbHeader loaderSize).store mbInfo
        (information mbInfo bootDevice.toNat xboxRam.toNat)).dword
          (headerAddr memory mbHeader + offset) = memory.dword (mbHeader + offset) := by
    intro offset bound
    refine Memory.dword_congr fun k four => ?_
    have inside : offset + k < 32 := by omega
    obtain ⟨inner, -, place⟩ := accepted.header_inner unended inside
    have here := image _ inner
    have target : loadAddr memory mbHeader +
        (headerAddr memory mbHeader - loadAddr memory mbHeader + (offset + k)) =
          headerAddr memory mbHeader + offset + k := by
      have ordered := accepted.ordered
      omega
    have source : imageStart memory mbHeader +
        (headerAddr memory mbHeader - loadAddr memory mbHeader + (offset + k)) =
          mbHeader + offset + k := by omega
    rwa [target, source] at here
  obtain ⟨-, magic, sum⟩ := checkMultibootHeader_spec accepted.found
  rw [← word 4 (by decide), ← word 8 (by decide)] at sum
  have first := word 0 (by decide)
  rw [Nat.add_zero, Nat.add_zero, magic] at first
  have ram : xboxRam.toNat = 64 ∨ xboxRam.toNat = 128 := by
    rcases accepted.ram with rfl | rfl
    · exact .inl rfl
    · exact .inr rfl
  exact information_not_header aligned ram zeros first sum

end Accepted

/-- With its header kept, an image is handed over as it should be if and only if it has an
end or no bss, and none of it is lost. -/
theorem startReactOS_placed_iff (memory : Memory) (mbHeader : Nat)
    (loaderSize bootDevice xboxRam : UInt32)
    (accepted : Accepted memory mbHeader loaderSize xboxRam)
    (kept : HeaderKept memory mbHeader loaderSize xboxRam) :
    Placed memory mbHeader loaderSize
        (startReactOS memory mbHeader loaderSize bootDevice xboxRam) ↔
      (bssEndAddr memory mbHeader = 0 ∨ loadEndAddr memory mbHeader ≠ 0) ∧
        Intact memory mbHeader loaderSize := by
  by_cases ended : bssEndAddr memory mbHeader = 0 ∨ loadEndAddr memory mbHeader ≠ 0
  · rw [kept.placed_iff accepted bootDevice ended, and_iff_right ended]
  · refine iff_of_false ?_ fun both => ended both.1
    obtain ⟨some_bss, unended⟩ := not_or.mp ended
    exact kept.not_placed accepted bootDevice some_bss (not_not.mp unended)

/-! ## Small images -/

/-- A memory with a header and some code at the start of the load area. -/
def headerMemory (headerAddr loadAddr loadEndAddr bssEndAddr entryAddr : Nat)
    (code : List Byte) : Memory :=
  Memory.store (fun _ => 0) freeldrLoadArea
    ([multibootHeaderMagic, 0x10000, sub32 0 (multibootHeaderMagic + 0x10000), headerAddr,
      loadAddr, loadEndAddr, bssEndAddr, entryAddr].flatMap dwordBytes ++ code)

theorem checkMultibootHeader_first {memory : Memory} {buffer : Nat}
    (magic : memory.dword buffer = multibootHeaderMagic)
    (sum : (multibootHeaderMagic + memory.dword (buffer + 4) + memory.dword (buffer + 8)) %
      2 ^ 32 = 0) : checkMultibootHeader memory buffer = some buffer := by
  have count : multibootSearchareaLen / 4 = 2047 + 1 := rfl
  unfold checkMultibootHeader
  rw [count, List.range_succ_eq_map, List.map_cons, Nat.mul_zero, Nat.add_zero]
  apply List.find?_cons_of_pos
  rw [decide_eq_true_iff, magic]
  exact ⟨rfl, sum⟩

/-- An image of 32 bytes of code behind its header, with a bss of the same size. -/
def smallImage : Memory :=
  headerMemory 0x100000 0x100000 0x100040 0x100060 0x100020 (List.replicate 32 0x90)

theorem startReactOS_placed_iff_header :
    Placed smallImage freeldrLoadArea 64
        (startReactOS smallImage freeldrLoadArea 64 0 64) ↔
      (bssEndAddr smallImage freeldrLoadArea = 0 ∨
        loadEndAddr smallImage freeldrLoadArea ≠ 0) ∧
        Intact smallImage freeldrLoadArea 64 := by
  apply startReactOS_placed_iff
  · refine ⟨checkMultibootHeader_first (by decide +kernel) (by decide +kernel), ?_, ?_, ?_, ?_,
      ?_, ?_, ?_⟩
    all_goals decide +kernel
  · refine ⟨.inr ?_, ?_, ?_⟩
    all_goals unfold Apart
    all_goals decide +kernel

/-- An image that is the rest of the file is cleared with everything below its bss. -/
theorem bss_without_end_clears_image :
    ¬∀ (memory : Memory) (mbHeader : Nat) (loaderSize bootDevice xboxRam : UInt32),
      Accepted memory mbHeader loaderSize xboxRam →
        Placed memory mbHeader loaderSize
          (startReactOS memory mbHeader loaderSize bootDevice xboxRam) := by
  intro placed
  have accepted : Accepted (headerMemory 0x100000 0x100000 0 0x110000 0x100020 [])
      freeldrLoadArea 0x1000 64 := by
    refine ⟨checkMultibootHeader_first (by decide +kernel) (by decide +kernel), ?_, ?_, ?_, ?_,
      ?_, ?_, ?_⟩
    all_goals decide +kernel
  have kept : HeaderKept (headerMemory 0x100000 0x100000 0 0x110000 0x100020 [])
      freeldrLoadArea 0x1000 64 := by
    refine ⟨.inr ?_, ?_, ?_⟩
    all_goals unfold Apart
    all_goals decide +kernel
  exact kept.not_placed accepted 0 (by decide +kernel) (by decide +kernel)
    (placed _ _ _ 0 _ accepted)

end Cromwell.Boot
