import Cromwell.Boot.LoadReactOS
import Cromwell.Lib.BlockCopy

/-!
# Starting the ReactOS boot loader

The image is moved to where its header wants it, the memory behind it is cleared, and the
information for it is stored behind that. The header is read where it is in the load area,
again and again, while all this is going on. Addresses are not wrapped around by bulk
operations.
-/

namespace Cromwell.Boot

open Cromwell.Std Cromwell.Lib

def multibootBootloaderMagic : Nat := 0x2BADB002
def mbInfoFlagMemSize : Nat := 0x1
def mbInfoFlagBootDevice : Nat := 0x2
def mbInfoFlagMemoryMap : Nat := 0x40
def fbSize : Nat := 0x00400000

/-- The difference of two 32-bit words. -/
def sub32 (first second : Nat) : Nat := (first + 2 ^ 32 - second) % 2 ^ 32

/-! ## Headers in memory -/

def headerAddr (memory : Memory) (mbHeader : Nat) : Nat := memory.dword (mbHeader + 12)
def loadAddr (memory : Memory) (mbHeader : Nat) : Nat := memory.dword (mbHeader + 16)
def loadEndAddr (memory : Memory) (mbHeader : Nat) : Nat := memory.dword (mbHeader + 20)
def bssEndAddr (memory : Memory) (mbHeader : Nat) : Nat := memory.dword (mbHeader + 24)
def entryAddr (memory : Memory) (mbHeader : Nat) : Nat := memory.dword (mbHeader + 28)

/-! ## The information block -/

/-- The double words of an entry of the memory map. -/
def memoryMapEntry (baseAddrLow lengthLow type : Nat) : List Nat :=
  [24, baseAddrLow, 0, lengthLow, 0, type]

/-- The double words of the information; the memory map is behind it. -/
def multibootInfo (mbInfo bootDev xboxRam : Nat) : List Nat :=
  [mbInfoFlagMemSize ||| mbInfoFlagBootDevice ||| mbInfoFlagMemoryMap, 1024,
    sub32 xboxRam 1 * 1024, bootDev, 0, 0, 0, 0, 0, 0, 0, 2 * 24, mbInfo + 96 + 4,
    0, 0, 0, 0, 0, 0, 0, 0, 0, 0, 0]

/-- The double words of the memory map. The video memory is where it is with 64 megabytes. -/
def memoryMap (xboxRam : Nat) : List Nat :=
  memoryMapEntry 0 (sub32 (xboxRam * 1024 * 1024) fbSize) 1 ++
  memoryMapEntry (if xboxRam > 64 then 64 * 1024 * 1024 - fbSize
    else sub32 (xboxRam * 1024 * 1024) fbSize) fbSize 0 ++
  if xboxRam > 64 then memoryMapEntry (64 * 1024 * 1024) ((xboxRam - 64) * 1024 * 1024) 1 else []

/-- The bytes of the information and of the memory map. -/
def information (mbInfo bootDev xboxRam : Nat) : List Byte :=
  (multibootInfo mbInfo bootDev xboxRam ++ memoryMap xboxRam).flatMap dwordBytes

/-- How much that is, with two entries in the map or with three. -/
def infoLength (xboxRam : Nat) : Nat := if xboxRam > 64 then 168 else 144

@[simp] theorem length_information (mbInfo bootDev xboxRam : Nat) :
    (information mbInfo bootDev xboxRam).length = infoLength xboxRam := by
  unfold information memoryMap infoLength
  split <;> rfl

/-- The first multiple of four behind the image or behind its bss. -/
def infoPtr (memory : Memory) (mbHeader ldrSize : Nat) : Nat :=
  let infoPtr := if bssEndAddr memory mbHeader = 0 then
      (loadAddr memory mbHeader + ldrSize) % 2 ^ 32
    else bssEndAddr memory mbHeader
  (infoPtr + 3) % 2 ^ 32 &&& (2 ^ 32 - 2 ^ 2)

/-! ## The jump -/

/-- The memory and the registers when the boot loader is entered. -/
structure Jump where
  memory : Memory
  eax : Nat
  ebx : Nat
  entry : Nat

/-- Move the image. -/
def copyImage (memory : Memory) (mbHeader ldrSize : Nat) : Memory :=
  memcpy memory (loadAddr memory mbHeader)
    (sub32 mbHeader (sub32 (headerAddr memory mbHeader) (loadAddr memory mbHeader)))
    (if loadEndAddr memory mbHeader > 0 then
      sub32 (loadEndAddr memory mbHeader) (loadAddr memory mbHeader)
    else ldrSize)

/-- Clear the memory behind the image. -/
def clearBss (memory : Memory) (mbHeader : Nat) : Memory :=
  if bssEndAddr memory mbHeader > 0 then
    memory.memset (loadEndAddr memory mbHeader) 0
      (sub32 (bssEndAddr memory mbHeader) (loadEndAddr memory mbHeader))
  else memory

/-- Store the information and enter the image. -/
def enter (memory : Memory) (mbHeader : Nat) (ldrSize bootDev xboxRam : UInt32) : Jump :=
  let mbInfo := infoPtr memory mbHeader ldrSize.toNat
  let memory := memory.store mbInfo (information mbInfo bootDev.toNat xboxRam.toNat)
  ⟨memory, multibootBootloaderMagic, mbInfo, entryAddr memory mbHeader⟩

def startReactOS (memory : Memory) (mbHeader : Nat) (loaderSize bootDevice xboxRam : UInt32) :
    Jump :=
  let memory := memory.memset idtLoc 0 (8 * 1024)
  let memory := copyImage memory mbHeader loaderSize.toNat
  let memory := clearBss memory mbHeader
  enter memory mbHeader loaderSize bootDevice xboxRam

/-- What has been loaded is started if its header is found again. -/
def exittoReactOS (memory : Memory) (multiboot : OptMultiboot) (xboxRam : UInt32) : Option Jump :=
  (checkMultibootHeader memory multiboot.pBuffer).map fun mbHeader =>
    startReactOS memory mbHeader multiboot.uBufferSize multiboot.uBootDevice xboxRam

/-! ## No header in the information -/

/-- Every value that is known is the one that is stored. -/
def Agrees {α : Type} (known : List (Option α)) (stored : List α) : Prop :=
  List.Forall₂ (fun known stored => ∀ value, known = some value → stored = value) known stored

/-- What is known is enough to tell that a pattern is not in front. -/
def conflicts {α : Type} [DecidableEq α] : List (Option α) → (pattern : List α) → Bool
  | _, [] => false
  | [], _ :: _ => true
  | none :: known, _ :: pattern => conflicts known pattern
  | some value :: known, item :: pattern => value ≠ item || conflicts known pattern

theorem agrees_some {α : Type} (values : List α) : Agrees (values.map some) values := by
  unfold Agrees
  rw [List.forall₂_map_left_iff, List.forall₂_same]
  intro value _ known same
  exact Option.some.inj same

theorem Agrees.not_prefix {α : Type} [DecidableEq α] {known : List (Option α)}
    {stored pattern : List α} (agrees : Agrees known stored)
    (different : conflicts known pattern = true) : ¬pattern <+: stored := by
  induction agrees generalizing pattern with
  | nil =>
      cases pattern with
      | nil => cases different
      | cons item pattern => simp
  | @cons value item known stored same _ ih =>
      cases pattern with
      | nil => cases different
      | cons first pattern =>
          rw [List.cons_prefix_cons]
          rintro ⟨rfl, rest⟩
          cases value with
          | none => exact ih different rest
          | some value =>
              rw [conflicts, Bool.or_eq_true, decide_eq_true_iff] at different
              exact different.elim (fun other => other (same value rfl).symm) fun later =>
                ih later rest

/-- The double words of the information as far as they do not depend on the run. -/
def knownInfo (xboxRam : Nat) : List (Option Nat) :=
  [some 0x43, some 1024, some (sub32 xboxRam 1 * 1024), none] ++ List.replicate 7 (some 0) ++
    [some 48, none] ++ List.replicate 11 (some 0) ++ (memoryMap xboxRam).map some

/-- The bytes of double words as far as they are known. -/
def knownBytes (known : List (Option Nat)) : List (Option Byte) :=
  known.flatMap fun value => match value with
    | some value => (dwordBytes value).map some
    | none => List.replicate 4 none

section Information

variable {memory : Memory} {mbInfo bootDev xboxRam place : Nat}

theorem agrees_info :
    Agrees (knownInfo xboxRam) (multibootInfo mbInfo bootDev xboxRam ++ memoryMap xboxRam) := by
  refine List.rel_append ?_ (agrees_some _)
  simp [multibootInfo]
  decide

theorem agrees_bytes {known : List (Option Nat)} {stored : List Nat}
    (agrees : Agrees known stored) :
    Agrees (knownBytes known) (stored.flatMap dwordBytes) := by
  induction agrees with
  | nil => exact .nil
  | @cons value item known stored same _ ih =>
      refine List.rel_append ?_ ih
      cases value with
      | none => exact .cons nofun (.cons nofun (.cons nofun (.cons nofun .nil)))
      | some value =>
          rw [same value rfl]
          exact agrees_some _

theorem agrees_information :
    Agrees (knownBytes (knownInfo xboxRam)) (information mbInfo bootDev xboxRam) :=
  agrees_bytes agrees_info

/-- The magic number could only be the boot device or the address of the memory map. -/
theorem magic_places {t : Nat} (ram : xboxRam = 64 ∨ xboxRam = 128) (bound : t < 168)
    (magic : dwordBytes multibootHeaderMagic <+:
      (information mbInfo bootDev xboxRam).drop t) : t = 12 ∨ t = 48 := by
  have known : ∀ ram ∈ [64, 128], ∀ t ∈ List.range 168, t = 12 ∨ t = 48 ∨
      conflicts ((knownBytes (knownInfo ram)).drop t) (dwordBytes multibootHeaderMagic) = true := by
    decide +kernel
  rcases known xboxRam (by simpa using ram) t (List.mem_range.mpr bound) with first | second | none
  · exact .inl first
  · exact .inr second
  · exact absurd magic (Agrees.not_prefix (List.forall₂_drop t agrees_information) none)

/-- A stored byte other than the one before is one of the list. -/
theorem getElem_of_stored {values : List Byte} {address x : Nat}
    (different : memory.store address values x ≠ memory x) :
    address ≤ x ∧ values[x - address]? = some (memory.store address values x) := by
  have inside : address ≤ x ∧ x - address < values.length := by
    by_contra outside
    exact different (Memory.store_outside _ (by omega))
  refine ⟨inside.1, ?_⟩
  rw [Memory.store_inside _ inside.1 inside.2]
  exact List.getElem?_eq_getElem inside.2

/-- A magic number where there have been zeros is part of what has been stored. -/
theorem magic_stored {values : List Byte} (zeros : ∀ k, k < 4 → memory (place + k) = 0)
    (magic : (memory.store mbInfo values).dword place = multibootHeaderMagic) :
    mbInfo ≤ place ∧ place - mbInfo < values.length ∧
      dwordBytes multibootHeaderMagic <+: values.drop (place - mbInfo) := by
  have bytes := Memory.bytes_dword (memory.store mbInfo values) place
  rw [magic] at bytes
  have digits : ∀ k, k < 4 → (dwordBytes multibootHeaderMagic)[k]? ≠ some 0 := by decide
  have stored : ∀ k, k < 4 → mbInfo ≤ place + k ∧
      values[place + k - mbInfo]? = (dwordBytes multibootHeaderMagic)[k]? := by
    intro k bound
    have read : (dwordBytes multibootHeaderMagic)[k]? =
        some (memory.store mbInfo values (place + k)) := by
      rw [← bytes, List.getElem?_eq_getElem (by simpa using bound), Memory.getElem_bytes]
    rw [read]
    apply getElem_of_stored
    rw [zeros k bound]
    intro zero
    exact digits k bound (read.trans (congrArg some zero))
  obtain ⟨lower, first⟩ := stored 0 (by omega)
  rw [Nat.add_zero] at lower first
  have inside : place - mbInfo < values.length := (List.getElem?_eq_some_iff.mp first).1
  refine ⟨lower, inside, List.prefix_iff_getElem?.mpr fun k bound => ?_⟩
  have index : place - mbInfo + k = place + k - mbInfo := by omega
  rw [List.getElem?_drop, index, (stored k bound).2]
  exact List.getElem?_eq_getElem bound

/-- The information put over zeros is not a header. -/
theorem information_not_header (aligned : mbInfo % 4 = 0) (ram : xboxRam = 64 ∨ xboxRam = 128)
    (zeros : ∀ k, k < 12 → memory (place + k) = 0)
    (magic : (memory.store mbInfo (information mbInfo bootDev xboxRam)).dword place =
      multibootHeaderMagic) :
    (multibootHeaderMagic +
      (memory.store mbInfo (information mbInfo bootDev xboxRam)).dword (place + 4) +
      (memory.store mbInfo (information mbInfo bootDev xboxRam)).dword (place + 8)) % 2 ^ 32 ≠
        0 := by
  obtain ⟨lower, inside, inFront⟩ := magic_stored (fun k bound => zeros k (by omega)) magic
  have bound : place - mbInfo < 168 := by
    rw [length_information] at inside
    unfold infoLength at inside
    split at inside <;> omega
  obtain ⟨rest, split⟩ := inFront
  rcases magic_places ram bound ⟨rest, split⟩ with boot | map
  · -- The members behind the boot device are not used.
    have unused : ∀ k, k < 8 → (information mbInfo bootDev xboxRam)[16 + k]? = some 0 := by
      intro k bound
      have zero : ((information mbInfo bootDev xboxRam).drop 16).take 8 = List.replicate 8 0 := rfl
      rw [← List.getElem?_drop, ← List.getElem?_take_of_lt bound, zero,
        List.getElem?_replicate_of_lt bound]
    have none : ∀ offset, offset = 4 ∨ offset = 8 →
        (memory.store mbInfo (information mbInfo bootDev xboxRam)).dword (place + offset) = 0 := by
      intro offset either
      have same : (memory.store mbInfo (information mbInfo bootDev xboxRam)).dword
          (place + offset) = Memory.dword (fun _ => 0) 0 := by
        refine Memory.dword_congr fun k four => ?_
        by_contra nonzero
        have old := zeros (offset + k) (by omega)
        rw [← Nat.add_assoc] at old
        have item := (getElem_of_stored (old ▸ nonzero)).2
        have index : place + offset + k - mbInfo = 16 + (offset - 4 + k) := by omega
        rw [index, unused _ (by omega)] at item
        exact nonzero (Option.some.inj item).symm
      rw [same]
      rfl
    rw [none 4 (.inl rfl), none 8 (.inr rfl)]
    decide
  · -- The map is at a multiple of four.
    have first : (information mbInfo bootDev xboxRam)[48]? =
        some (UInt8.ofNat (mbInfo + 96 + 4)) := rfl
    have digit : (information mbInfo bootDev xboxRam)[48]? = some 0x02 := by
      have head : (dwordBytes multibootHeaderMagic ++ rest)[0]? =
          ((information mbInfo bootDev xboxRam).drop 48)[0]? := by
        rw [split, map]
      rw [List.getElem?_drop] at head
      exact head.symm
    have low := congrArg UInt8.toNat (Option.some.inj (first.symm.trans digit))
    rw [UInt8.toNat_ofNat'] at low
    change _ = 2 at low
    omega

end Information

end Cromwell.Boot
