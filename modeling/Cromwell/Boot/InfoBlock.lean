import Cromwell.Boot.Handoff

/-!
# The information block

What the boot loader is told about the memory. The block goes behind the image and its bss,
and the map in it has the memory of the program and of the screen. With more than 64
megabytes the screen stays where it is, and a third entry is written for what lies behind.
-/

namespace Cromwell.Boot

open Cromwell.Std Cromwell.Lib

/-! ## The block as it is found -/

/-- A region of the memory map. -/
structure Region where
  start : Nat
  length : Nat
  type : Nat
  deriving DecidableEq

def Region.Has (region : Region) (x : Nat) : Prop :=
  region.start ≤ x ∧ x < region.start + region.length

/-- What an entry says; its own size is in front. -/
def regionAt (memory : Memory) (mmap : Nat) : Region where
  start := memory.dword (mmap + 4) + memory.dword (mmap + 8) * 2 ^ 32
  length := memory.dword (mmap + 12) + memory.dword (mmap + 16) * 2 ^ 32
  type := memory.dword (mmap + 20)

/-- How many entries are written. -/
def entryCount (xboxRam : Nat) : Nat := (memoryMap xboxRam).length / 6

/-- What the entries behind the information say. -/
def Jump.regions (jump : Jump) (xboxRam : Nat) : List Region :=
  (List.range (entryCount xboxRam)).map fun i => regionAt jump.memory (jump.ebx + 96 + 24 * i)

/-- The block tells where the memory is, and it is out of the way. An entry begins for its
reader behind its size. -/
structure Consistent (image bss : Extent) (xboxRam : Nat) (jump : Jump) : Prop where
  behindImage : image.start + image.length ≤ jump.ebx
  behindBss : bss.start + bss.length ≤ jump.ebx
  addressable : jump.ebx + infoLength xboxRam ≤ 2 ^ 32
  mmapAddr : jump.memory.dword (jump.ebx + 48) = jump.ebx + 96 + 4
  mmapLength : jump.memory.dword (jump.ebx + 44) = 24 * entryCount xboxRam
  disjoint : ((jump.regions xboxRam).filter (·.type = 1)).Pairwise fun region other =>
    ∀ x, ¬(region.Has x ∧ other.Has x)
  video : ∀ region ∈ jump.regions xboxRam, region.type = 1 →
    ∀ screen ∈ jump.regions xboxRam, screen.type = 0 → ∀ x, ¬(region.Has x ∧ screen.Has x)
  holdsImage : ∀ x, image.start ≤ x → x < image.start + image.length →
    ∃ region ∈ jump.regions xboxRam, region.type = 1 ∧ region.Has x
  covers : ∀ x, (∃ region ∈ jump.regions xboxRam,
    (region.type = 1 ∨ region.type = 0) ∧ region.Has x) ↔ x < xboxRam * 0x100000

/-! ## What is in memory before -/

/-- The memory without a descriptor table. -/
def tableCleared (memory : Memory) : Memory := memory.memset idtLoc 0 (8 * 1024)

/-- Where the image is copied to. -/
def imageExtent (memory : Memory) (mbHeader ldrSize : Nat) : Extent where
  start := loadAddr memory mbHeader
  length :=
    if loadEndAddr memory mbHeader > 0 then
      sub32 (loadEndAddr memory mbHeader) (loadAddr memory mbHeader)
    else ldrSize

/-- What is cleared for its bss. -/
def bssExtent (memory : Memory) (mbHeader : Nat) : Extent :=
  if bssEndAddr memory mbHeader > 0 then
    ⟨loadEndAddr memory mbHeader,
      sub32 (bssEndAddr memory mbHeader) (loadEndAddr memory mbHeader)⟩
  else ⟨0, 0⟩

section Before

variable (memory : Memory) (mbHeader ldrSize : Nat)

/-- The memory with the image in its place. -/
def imageMoved : Memory := copyImage (tableCleared memory) mbHeader ldrSize

/-- The memory the block is written to. -/
def bssCleared : Memory := clearBss (imageMoved memory mbHeader ldrSize) mbHeader

/-- The image only changes its own range. -/
theorem copyImage_outside {x : Nat} (outside : x < (imageExtent memory mbHeader ldrSize).start ∨
    (imageExtent memory mbHeader ldrSize).start +
      (imageExtent memory mbHeader ldrSize).length ≤ x) :
    copyImage memory mbHeader ldrSize x = memory x :=
  memcpy_outside outside

/-- The bss is cleared in its range. -/
theorem clearBss_eq_memset : clearBss memory mbHeader =
    memory.memset (bssExtent memory mbHeader).start 0 (bssExtent memory mbHeader).length := by
  unfold clearBss bssExtent
  split
  · rfl
  · funext x
    exact (Memory.memset_outside _ (by dsimp only; omega)).symm

end Before

theorem startReactOS_enter (memory : Memory) (mbHeader : Nat)
    (loaderSize bootDevice xboxRam : UInt32) :
    startReactOS memory mbHeader loaderSize bootDevice xboxRam =
      enter (bssCleared memory mbHeader loaderSize.toNat) mbHeader loaderSize bootDevice
        xboxRam := rfl

/-! ## Room for the block -/

/-- The end of what has been loaded, as the header says it. -/
def loadedEnd (memory : Memory) (mbHeader ldrSize : Nat) : Nat :=
  if bssEndAddr memory mbHeader = 0 then (loadAddr memory mbHeader + ldrSize) % 2 ^ 32
  else bssEndAddr memory mbHeader

/-- The first multiple of four that is not in front of a place. -/
def aligned (place : Nat) : Nat := (place + 3) / 4 * 4

/-- What the header says is the end is behind all that has been loaded, with room for the
block, and the image lies below the screen. -/
structure Room (image bss : Extent) (loadedEnd : Nat) : Prop where
  inRam : image.length = 0 ∨ image.start + image.length ≤ 64 * 0x100000 - fbSize
  behindImage : image.start + image.length ≤ aligned loadedEnd
  behindBss : bss.start + bss.length ≤ aligned loadedEnd
  addressable : aligned loadedEnd + infoLength 64 ≤ 2 ^ 32

section Block

variable {memory : Memory} {mbHeader ldrSize : Nat}

/-- As long as there is room for it, the block goes to the next multiple of four. -/
theorem infoPtr_eq_aligned (room : loadedEnd memory mbHeader ldrSize + 3 < 2 ^ 32) :
    infoPtr memory mbHeader ldrSize = aligned (loadedEnd memory mbHeader ldrSize) := by
  unfold infoPtr
  dsimp only
  rw [and_highMask 32 2 (by omega) (Nat.mod_lt _ (by omega))]
  unfold aligned
  change (loadedEnd memory mbHeader ldrSize + 3) % 2 ^ 32 / 2 ^ 2 * 2 ^ 2 = _
  rw [Nat.mod_eq_of_lt room]
  rfl

/-- Otherwise it goes to the start of the memory. -/
theorem infoPtr_eq_zero (none : 2 ^ 32 ≤ loadedEnd memory mbHeader ldrSize + 3) :
    infoPtr memory mbHeader ldrSize = 0 := by
  have bound : loadedEnd memory mbHeader ldrSize < 2 ^ 32 := by
    unfold loadedEnd
    split
    · exact Nat.mod_lt _ (by omega)
    · exact memory.dword_lt _
  unfold infoPtr
  dsimp only
  rw [and_highMask 32 2 (by omega) (Nat.mod_lt _ (by omega))]
  change (loadedEnd memory mbHeader ldrSize + 3) % 2 ^ 32 / 2 ^ 2 * 2 ^ 2 = 0
  omega

end Block

/-! ## Reading the block -/

/-- With more than 64 megabytes a third entry is written. -/
theorem entryCount_eq (xboxRam : Nat) : entryCount xboxRam = if xboxRam > 64 then 3 else 2 := by
  unfold entryCount memoryMap
  split <;> simp [memoryMapEntry]

section Reading

variable {memory : Memory} {mbHeader : Nat} {ldrSize bootDev xboxRam : UInt32}

/-- Every double word of the block is read back. -/
theorem enter_dword (i : Nat) {word : Nat}
    (stored : (multibootInfo (infoPtr memory mbHeader ldrSize.toNat) bootDev.toNat
      xboxRam.toNat ++ memoryMap xboxRam.toNat)[i]? = some word) :
    (enter memory mbHeader ldrSize bootDev xboxRam).memory.dword
        ((enter memory mbHeader ldrSize bootDev xboxRam).ebx + 4 * i) = word % 2 ^ 32 := by
  obtain ⟨inside, rfl⟩ := List.getElem?_eq_some_iff.mp stored
  exact Memory.dword_store_words _ _ _ inside

/-- Two entries are counted, however many there are. -/
theorem enter_mmapLength :
    (enter memory mbHeader ldrSize bootDev xboxRam).memory.dword
      ((enter memory mbHeader ldrSize bootDev xboxRam).ebx + 44) = 48 :=
  enter_dword 11 rfl

theorem enter_mmapAddr :
    (enter memory mbHeader ldrSize bootDev xboxRam).memory.dword
        ((enter memory mbHeader ldrSize bootDev xboxRam).ebx + 48) =
      ((enter memory mbHeader ldrSize bootDev xboxRam).ebx + 96 + 4) % 2 ^ 32 :=
  enter_dword 12 rfl

/-- An entry is read as it has been written. -/
theorem enter_regionAt {j baseAddrLow lengthLow type : Nat} {rest : List Nat}
    (entry : (memoryMap xboxRam.toNat).drop (6 * j) =
      memoryMapEntry baseAddrLow lengthLow type ++ rest) :
    regionAt (enter memory mbHeader ldrSize bootDev xboxRam).memory
        ((enter memory mbHeader ldrSize bootDev xboxRam).ebx + 96 + 24 * j) =
      ⟨baseAddrLow % 2 ^ 32, lengthLow % 2 ^ 32, type % 2 ^ 32⟩ := by
  have word : ∀ k value, (memoryMapEntry baseAddrLow lengthLow type)[k]? = some value →
      (enter memory mbHeader ldrSize bootDev xboxRam).memory.dword
        ((enter memory mbHeader ldrSize bootDev xboxRam).ebx + 96 + 24 * j + 4 * k) =
          value % 2 ^ 32 := by
    intro k value item
    have place : (enter memory mbHeader ldrSize bootDev xboxRam).ebx + 96 + 24 * j + 4 * k =
        (enter memory mbHeader ldrSize bootDev xboxRam).ebx + 4 * (24 + (6 * j + k)) := by omega
    rw [place]
    apply enter_dword
    rw [List.getElem?_append_right (Nat.le_add_right 24 _)]
    change (memoryMap xboxRam.toNat)[24 + (6 * j + k) - 24]? = some value
    rw [Nat.add_sub_cancel_left, ← List.getElem?_drop, entry,
      List.getElem?_append_left (List.getElem?_eq_some_iff.mp item).1, item]
  have base := word 1 baseAddrLow rfl
  have base_high := word 2 0 rfl
  have length := word 3 lengthLow rfl
  have length_high := word 4 0 rfl
  have kind := word 5 type rfl
  unfold regionAt
  rw [base, base_high, length, length_high, kind]
  simp

/-- With 64 megabytes there are the memory of the program and that of the screen behind it. -/
theorem enter_regions_64 :
    (enter memory mbHeader ldrSize bootDev 64).regions 64 =
      [⟨0, 64 * 0x100000 - fbSize, 1⟩, ⟨64 * 0x100000 - fbSize, fbSize, 0⟩] := by
  have first : (memoryMap (64 : UInt32).toNat).drop (6 * 0) =
      memoryMapEntry 0 (64 * 0x100000 - fbSize) 1 ++
        memoryMapEntry (64 * 0x100000 - fbSize) fbSize 0 :=
    rfl
  have second : (memoryMap (64 : UInt32).toNat).drop (6 * 1) =
      memoryMapEntry (64 * 0x100000 - fbSize) fbSize 0 ++ [] := rfl
  have ram : regionAt (enter memory mbHeader ldrSize bootDev 64).memory _ = _ :=
    enter_regionAt first
  have screen : regionAt (enter memory mbHeader ldrSize bootDev 64).memory _ = _ :=
    enter_regionAt second
  have count : List.range (entryCount 64) = [0, 1] := rfl
  rw [Jump.regions, count, List.map_cons, List.map_singleton, ram, screen]
  rfl

/-- With more memory the first entry goes on over the screen. -/
theorem screen_in_ram (more : 64 < xboxRam.toNat) (bounded : xboxRam.toNat < 4096) {x : Nat}
    (behind : 64 * 0x100000 - fbSize ≤ x) (onScreen : x < 64 * 0x100000)
    (inside : x + fbSize < xboxRam.toNat * 0x100000) :
    ∃ region ∈ (enter memory mbHeader ldrSize bootDev xboxRam).regions xboxRam.toNat,
      ∃ screen ∈ (enter memory mbHeader ldrSize bootDev xboxRam).regions xboxRam.toNat,
        region.type = 1 ∧ screen.type = 0 ∧ region.Has x ∧ screen.Has x := by
  have length : sub32 (xboxRam.toNat * 1024 * 1024) fbSize % 2 ^ 32 =
      xboxRam.toNat * 0x100000 - fbSize := by
    unfold sub32 fbSize
    omega
  have first : (memoryMap xboxRam.toNat).drop (6 * 0) =
      memoryMapEntry 0 (sub32 (xboxRam.toNat * 1024 * 1024) fbSize) 1 ++ _ := rfl
  have second : (memoryMap xboxRam.toNat).drop (6 * 1) =
      memoryMapEntry (64 * 1024 * 1024 - fbSize) fbSize 0 ++
        memoryMapEntry (64 * 1024 * 1024) ((xboxRam.toNat - 64) * 1024 * 1024) 1 := by
    unfold memoryMap
    rw [if_pos more, if_pos more]
    rfl
  have listed : ∀ j, j < 2 →
      regionAt (enter memory mbHeader ldrSize bootDev xboxRam).memory
          ((enter memory mbHeader ldrSize bootDev xboxRam).ebx + 96 + 24 * j) ∈
        (enter memory mbHeader ldrSize bootDev xboxRam).regions xboxRam.toNat := by
    intro j bound
    apply List.mem_map_of_mem
    rw [entryCount_eq, if_pos more]
    exact List.mem_range.mpr (by omega)
  refine ⟨_, listed 0 (by omega), _, listed 1 (by omega), ?_⟩
  rw [enter_regionAt first, enter_regionAt second, length]
  refine ⟨rfl, rfl, ⟨Nat.zero_le x, ?_⟩, behind, onScreen⟩
  dsimp only
  omega

end Reading

/-! ## Headers that are kept -/

section Kept

variable {memory : Memory} {mbHeader ldrSize : Nat}

/-- What is asked of the header is the same in two memories that agree on it. -/
theorem fields_congr {other : Memory} (ldrSize : Nat)
    (same : ∀ x, mbHeader ≤ x → x < mbHeader + 32 → memory x = other x) :
    imageExtent memory mbHeader ldrSize = imageExtent other mbHeader ldrSize ∧
      bssExtent memory mbHeader = bssExtent other mbHeader ∧
        loadedEnd memory mbHeader ldrSize = loadedEnd other mbHeader ldrSize := by
  have field : ∀ offset, offset ≤ 28 →
      memory.dword (mbHeader + offset) = other.dword (mbHeader + offset) := by
    intro offset bound
    exact Memory.dword_congr fun k four => same _ (by omega) (by omega)
  have load : loadAddr memory mbHeader = loadAddr other mbHeader := field 16 (by omega)
  have load_end : loadEndAddr memory mbHeader = loadEndAddr other mbHeader :=
    field 20 (by omega)
  have bss_end : bssEndAddr memory mbHeader = bssEndAddr other mbHeader := field 24 (by omega)
  unfold imageExtent bssExtent loadedEnd
  rw [load, load_end, bss_end]
  exact ⟨rfl, rfl, rfl⟩

/-- A header that nothing is put over is read as it has been found. -/
theorem fields_kept (table : Apart ⟨mbHeader, 32⟩ ⟨idtLoc, 8 * 1024⟩)
    (image : Apart ⟨mbHeader, 32⟩ (imageExtent memory mbHeader ldrSize))
    (bss : Apart ⟨mbHeader, 32⟩ (bssExtent memory mbHeader)) :
    imageExtent (tableCleared memory) mbHeader ldrSize = imageExtent memory mbHeader ldrSize ∧
      bssExtent (imageMoved memory mbHeader ldrSize) mbHeader = bssExtent memory mbHeader ∧
        loadedEnd (bssCleared memory mbHeader ldrSize) mbHeader ldrSize =
          loadedEnd memory mbHeader ldrSize := by
  unfold Apart at table image bss
  dsimp only at table image bss
  have tableKept : ∀ x, mbHeader ≤ x → x < mbHeader + 32 → tableCleared memory x = memory x := by
    intro x lower upper
    exact Memory.memset_outside _ (by omega)
  have extent := (fields_congr ldrSize tableKept).1
  have imageKept : ∀ x, mbHeader ≤ x → x < mbHeader + 32 →
      imageMoved memory mbHeader ldrSize x = memory x := by
    intro x lower upper
    rw [imageMoved, copyImage_outside _ _ _ (by rw [extent]; omega)]
    exact tableKept x lower upper
  have cleared := (fields_congr ldrSize imageKept).2.1
  have bssKept : ∀ x, mbHeader ≤ x → x < mbHeader + 32 →
      bssCleared memory mbHeader ldrSize x = memory x := by
    intro x lower upper
    rw [bssCleared, clearBss_eq_memset, Memory.memset_outside _ (by rw [cleared]; omega)]
    exact imageKept x lower upper
  exact ⟨extent, cleared, (fields_congr ldrSize bssKept).2.2⟩

end Kept

/-! ## Blocks that are consistent -/

section Consistency

variable {memory : Memory} {mbHeader : Nat} {ldrSize bootDev xboxRam : UInt32}
  {image bss : Extent}

/-- With more memory there are more entries than are counted. -/
theorem ram_eq_of_consistent (ram : 64 ≤ xboxRam.toNat)
    (consistent : Consistent image bss xboxRam.toNat
      (enter memory mbHeader ldrSize bootDev xboxRam)) : xboxRam = 64 := by
  have counted := consistent.mmapLength
  rw [enter_mmapLength, entryCount_eq] at counted
  split at counted
  · omega
  · next few =>
    apply UInt32.toNat_inj.mp
    change xboxRam.toNat = 64
    omega

theorem mem_regions_64 {region : Region} :
    region ∈ (enter memory mbHeader ldrSize bootDev 64).regions 64 ↔
      region = ⟨0, 64 * 0x100000 - fbSize, 1⟩ ∨
        region = ⟨64 * 0x100000 - fbSize, fbSize, 0⟩ := by
  simp [enter_regions_64]

/-- With 64 megabytes the screen is behind the memory of the program. -/
theorem screen_apart_64 {region screen : Region}
    (member : region ∈ (enter memory mbHeader ldrSize bootDev 64).regions 64)
    (kind : region.type = 1)
    (member' : screen ∈ (enter memory mbHeader ldrSize bootDev 64).regions 64)
    (kind' : screen.type = 0) (x : Nat) : ¬(region.Has x ∧ screen.Has x) := by
  rcases mem_regions_64.mp member with rfl | rfl
  · rcases mem_regions_64.mp member' with rfl | rfl
    · cases kind'
    · rintro ⟨⟨-, before⟩, behind, -⟩
      dsimp only at before behind
      omega
  · cases kind

/-- With 64 megabytes the map is of all of them. -/
theorem covers_64 (x : Nat) :
    (∃ region ∈ (enter memory mbHeader ldrSize bootDev 64).regions 64,
      (region.type = 1 ∨ region.type = 0) ∧ region.Has x) ↔ x < 64 * 0x100000 := by
  have screen : 64 * 0x100000 - fbSize + fbSize = 64 * 0x100000 := by decide
  constructor
  · rintro ⟨region, member, -, -, inside⟩
    rcases mem_regions_64.mp member with rfl | rfl
    · dsimp only at inside
      omega
    · dsimp only at inside
      omega
  · intro inside
    rcases Nat.lt_or_ge x (64 * 0x100000 - fbSize) with below | behind
    · refine ⟨_, mem_regions_64.mpr (.inl rfl), .inl rfl, Nat.zero_le x, ?_⟩
      dsimp only
      omega
    · refine ⟨_, mem_regions_64.mpr (.inr rfl), .inr rfl, behind, ?_⟩
      dsimp only
      omega

/-- With 64 megabytes the memory of the program ends where the screen begins. -/
theorem holdsImage_64_iff :
    (∀ x, image.start ≤ x → x < image.start + image.length →
      ∃ region ∈ (enter memory mbHeader ldrSize bootDev 64).regions 64,
        region.type = 1 ∧ region.Has x) ↔
      image.length = 0 ∨ image.start + image.length ≤ 64 * 0x100000 - fbSize := by
  constructor
  · intro holds
    by_cases none : image.length = 0
    · exact .inl none
    · right
      obtain ⟨region, member, kind, -, inside⟩ :=
        holds (image.start + image.length - 1) (by omega) (by omega)
      rcases mem_regions_64.mp member with rfl | rfl
      · dsimp only at inside
        omega
      · cases kind
  · intro inRam x lower upper
    refine ⟨_, mem_regions_64.mpr (.inl rfl), rfl, Nat.zero_le x, ?_⟩
    dsimp only
    omega

/-- With 64 megabytes the map is right, and the block is consistent if its place is. -/
theorem consistent_64_iff :
    Consistent image bss 64 (enter memory mbHeader ldrSize bootDev 64) ↔
      (image.length = 0 ∨ image.start + image.length ≤ 64 * 0x100000 - fbSize) ∧
        image.start + image.length ≤ infoPtr memory mbHeader ldrSize.toNat ∧
          bss.start + bss.length ≤ infoPtr memory mbHeader ldrSize.toNat ∧
            infoPtr memory mbHeader ldrSize.toNat + infoLength 64 ≤ 2 ^ 32 := by
  have place : (enter memory mbHeader ldrSize bootDev 64).ebx =
      infoPtr memory mbHeader ldrSize.toNat := rfl
  constructor
  · intro consistent
    exact ⟨holdsImage_64_iff.mp consistent.holdsImage, consistent.behindImage,
      consistent.behindBss, consistent.addressable⟩
  · rintro ⟨inRam, behindImage, behindBss, addressable⟩
    have behind : infoPtr memory mbHeader ldrSize.toNat + 96 + 4 < 2 ^ 32 := by
      unfold infoLength at addressable
      split at addressable <;> omega
    exact {
      behindImage
      behindBss
      addressable
      mmapAddr := by
        rw [enter_mmapAddr, place]
        exact Nat.mod_eq_of_lt behind
      mmapLength := by
        rw [enter_mmapLength, entryCount_eq]
        rfl
      disjoint := by
        rw [enter_regions_64]
        exact List.pairwise_singleton _ _
      video := fun region member kind screen member' kind' =>
        screen_apart_64 member kind member' kind'
      holdsImage := holdsImage_64_iff.mpr inRam
      covers := covers_64 }

/-- If nothing has been loaded, then only the descriptor table has been cleared. -/
theorem bssCleared_of_nothing {memory : Memory} {mbHeader ldrSize : Nat}
    (image : (imageExtent (tableCleared memory) mbHeader ldrSize).length = 0)
    (bss : (bssExtent (imageMoved memory mbHeader ldrSize) mbHeader).length = 0) :
    imageMoved memory mbHeader ldrSize = tableCleared memory ∧
      bssCleared memory mbHeader ldrSize = tableCleared memory := by
  have moved : imageMoved memory mbHeader ldrSize = tableCleared memory := by
    funext x
    exact copyImage_outside _ _ _ (by omega)
  refine ⟨moved, ?_⟩
  rw [bssCleared, clearBss_eq_memset, moved]
  rw [moved] at bss
  funext x
  exact Memory.memset_outside _ (by omega)

/-- If nothing has been loaded, at address zero, then that is where the header ends it. -/
theorem loadedEnd_of_nothing {memory : Memory} {mbHeader ldrSize : Nat}
    (image : (imageExtent (tableCleared memory) mbHeader ldrSize).start +
      (imageExtent (tableCleared memory) mbHeader ldrSize).length = 0)
    (bss : (bssExtent (imageMoved memory mbHeader ldrSize) mbHeader).start +
      (bssExtent (imageMoved memory mbHeader ldrSize) mbHeader).length = 0) :
    loadedEnd (bssCleared memory mbHeader ldrSize) mbHeader ldrSize = 0 := by
  obtain ⟨start, none⟩ := Nat.add_eq_zero_iff.mp image
  obtain ⟨moved, cleared⟩ := bssCleared_of_nothing none (Nat.add_eq_zero_iff.mp bss).2
  rw [moved] at bss
  rw [cleared]
  generalize tableCleared memory = memory at start none bss
  change loadAddr memory mbHeader = 0 at start
  have end_lt := memory.dword_lt (mbHeader + 20)
  have bss_lt := memory.dword_lt (mbHeader + 24)
  change loadEndAddr memory mbHeader < 2 ^ 32 at end_lt
  change bssEndAddr memory mbHeader < 2 ^ 32 at bss_lt
  unfold imageExtent at none
  dsimp only at none
  have no_bss : bssEndAddr memory mbHeader = 0 := by
    unfold bssExtent sub32 at bss
    split at bss
    · dsimp only at bss
      omega
    · omega
  have no_length : ldrSize = 0 := by
    unfold sub32 at none
    split at none
    · omega
    · exact none
  rw [loadedEnd, if_pos no_bss, start, no_length]
  rfl

end Consistency

/-- The block is consistent with 64 megabytes only, and with room for it. -/
theorem startReactOS_consistent_iff (memory : Memory) (mbHeader : Nat)
    (loaderSize bootDevice xboxRam : UInt32) (ram : 64 ≤ xboxRam.toNat) :
    Consistent (imageExtent (tableCleared memory) mbHeader loaderSize.toNat)
        (bssExtent (imageMoved memory mbHeader loaderSize.toNat) mbHeader) xboxRam.toNat
        (startReactOS memory mbHeader loaderSize bootDevice xboxRam) ↔
      xboxRam = 64 ∧
        Room (imageExtent (tableCleared memory) mbHeader loaderSize.toNat)
          (bssExtent (imageMoved memory mbHeader loaderSize.toNat) mbHeader)
          (loadedEnd (bssCleared memory mbHeader loaderSize.toNat) mbHeader loaderSize.toNat) := by
  rw [startReactOS_enter]
  constructor
  · intro consistent
    obtain rfl := ram_eq_of_consistent ram consistent
    obtain ⟨inRam, image, bss, addressable⟩ := consistent_64_iff.mp consistent
    have room : loadedEnd (bssCleared memory mbHeader loaderSize.toNat) mbHeader
        loaderSize.toNat + 3 < 2 ^ 32 := by
      by_contra none
      have zero := infoPtr_eq_zero (Nat.le_of_not_lt none)
      rw [zero] at image bss
      have nothing := loadedEnd_of_nothing (Nat.le_zero.mp image) (Nat.le_zero.mp bss)
      omega
    rw [infoPtr_eq_aligned room] at image bss addressable
    exact ⟨rfl, inRam, image, bss, addressable⟩
  · rintro ⟨rfl, inRam, image, bss, addressable⟩
    have room : loadedEnd (bssCleared memory mbHeader loaderSize.toNat) mbHeader
        loaderSize.toNat + 3 < 2 ^ 32 := by
      unfold aligned infoLength at addressable
      split at addressable <;> omega
    refine consistent_64_iff.mpr ⟨inRam, ?_⟩
    rw [infoPtr_eq_aligned room]
    exact ⟨image, bss, addressable⟩

/-- With 64 megabytes or more the block is consistent if and only if there are 64, and the end
the header gives is behind what has been loaded, with room behind it. -/
theorem infoBlock_consistent_iff (memory : Memory) (mbHeader : Nat)
    (loaderSize bootDevice xboxRam : UInt32) (ram : 64 ≤ xboxRam.toNat) :
    Consistent (imageExtent (tableCleared memory) mbHeader loaderSize.toNat)
        (bssExtent (imageMoved memory mbHeader loaderSize.toNat) mbHeader) xboxRam.toNat
        (startReactOS memory mbHeader loaderSize bootDevice xboxRam) ↔
      xboxRam = 64 ∧
        Room (imageExtent (tableCleared memory) mbHeader loaderSize.toNat)
          (bssExtent (imageMoved memory mbHeader loaderSize.toNat) mbHeader)
          (loadedEnd (bssCleared memory mbHeader loaderSize.toNat) mbHeader loaderSize.toNat) :=
  startReactOS_consistent_iff memory mbHeader loaderSize bootDevice xboxRam ram

/-- If neither the descriptor table nor the image nor the bss touches the header, then its
fields are those that have been found. -/
theorem consistent_iff_of_kept (memory : Memory) (mbHeader : Nat)
    (loaderSize bootDevice xboxRam : UInt32) (ram : 64 ≤ xboxRam.toNat)
    (table : Apart ⟨mbHeader, 32⟩ ⟨idtLoc, 8 * 1024⟩)
    (image : Apart ⟨mbHeader, 32⟩ (imageExtent memory mbHeader loaderSize.toNat))
    (bss : Apart ⟨mbHeader, 32⟩ (bssExtent memory mbHeader)) :
    Consistent (imageExtent memory mbHeader loaderSize.toNat) (bssExtent memory mbHeader)
        xboxRam.toNat (startReactOS memory mbHeader loaderSize bootDevice xboxRam) ↔
      xboxRam = 64 ∧
        Room (imageExtent memory mbHeader loaderSize.toNat) (bssExtent memory mbHeader)
          (loadedEnd memory mbHeader loaderSize.toNat) := by
  have fields := startReactOS_consistent_iff memory mbHeader loaderSize bootDevice xboxRam ram
  obtain ⟨sameImage, sameBss, sameEnd⟩ := fields_kept table image bss
  rwa [sameImage, sameBss, sameEnd] at fields

theorem infoBlock_consistent_iff_header :
    Consistent (imageExtent (tableCleared smallImage) freeldrLoadArea (64 : UInt32).toNat)
        (bssExtent (imageMoved smallImage freeldrLoadArea (64 : UInt32).toNat)
          freeldrLoadArea) (64 : UInt32).toNat
        (startReactOS smallImage freeldrLoadArea 64 0 64) ↔
      (64 : UInt32) = 64 ∧
        Room (imageExtent (tableCleared smallImage) freeldrLoadArea (64 : UInt32).toNat)
          (bssExtent (imageMoved smallImage freeldrLoadArea (64 : UInt32).toNat)
            freeldrLoadArea)
          (loadedEnd (bssCleared smallImage freeldrLoadArea (64 : UInt32).toNat)
            freeldrLoadArea (64 : UInt32).toNat) :=
  infoBlock_consistent_iff _ _ 64 0 64 (by decide)

/-- With 128 megabytes not even a header in good order helps. -/
theorem not_infoBlock_consistent :
    ¬∀ (memory : Memory) (mbHeader : Nat) (loaderSize bootDevice xboxRam : UInt32),
      checkMultibootHeader memory freeldrLoadArea = some mbHeader → 64 ≤ xboxRam.toNat →
        Consistent (imageExtent (tableCleared memory) mbHeader loaderSize.toNat)
          (bssExtent (imageMoved memory mbHeader loaderSize.toNat) mbHeader) xboxRam.toNat
          (startReactOS memory mbHeader loaderSize bootDevice xboxRam) := by
  intro consistent
  have block := consistent (headerMemory 0x100000 0x100000 0x100020 0x100040 0x100020 [])
    freeldrLoadArea 32 0 128
    (checkMultibootHeader_first (by decide +kernel) (by decide +kernel)) (by decide)
  rw [startReactOS_enter] at block
  exact absurd (ram_eq_of_consistent (by decide) block) (by decide)

end Cromwell.Boot
