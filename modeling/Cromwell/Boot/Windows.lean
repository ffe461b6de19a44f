import Cromwell.Boot.LoadReactOS
import Cromwell.Boot.Placement
import Cromwell.Fatx.FileContents
import Cromwell.Iso9660.Contents

/-!
# Loaders and the memory layout

A loader stores file data only where the memory layout has room for it, and changes nothing
that is reserved, exactly if the files it reads fit and the kernel among them can be placed.
A native loader that asks for the whole file, a FATX loader and a CD loader that is given a
long file have no limit of their own, and no loader looks at what a kernel is placed over.
-/

namespace Cromwell.Boot

open Cromwell.Std Cromwell.Std.Program Cromwell.Lib Cromwell.Fatx Cromwell.Iso9660

/-! ## Files on a CD -/

/-- The limit given to the CD reader. -/
def Purpose.limit : Purpose → Nat
  | config => 0x800
  | kernel => maxKernelSize
  | initrd => maxInitrdSize
  | freeldr => freeldrMaxSize

theorem Purpose.limit_le (purpose : Purpose) : purpose.limit ≤ purpose.window.length := by
  cases purpose <;> decide

theorem Purpose.limit_whole (purpose : Purpose) : purpose.limit % 2048 = 0 := by
  cases purpose <;> decide

theorem Purpose.limit_bounded (purpose : Purpose) : purpose.limit < 2 ^ 32 := by
  cases purpose <;> decide

theorem Purpose.toNat_limit (purpose : Purpose) :
    (UInt32.ofNat purpose.limit).toNat = purpose.limit :=
  UInt32.toNat_ofNat_of_lt' purpose.limit_bounded

/-- The directory record of a file that is read. -/
def Holds (disc : Disc) (path : List Byte) (record : DirectoryRecord) : Prop :=
  disc.volume = true ∧ disc.lookup path = some record ∧ record.extent ≠ 0

/-- A file is shorter than its limit, or the size taken for it fits. -/
def CdFits (purpose : Purpose) (disc : Disc) (path : List Byte) (memory : Memory) : Prop :=
  ∀ record, Holds disc path record → record.size.toNat < purpose.limit ∨
    (wholeBlocks (UInt32.ofNat (memory.dword purpose.limit))).toNat ≤ purpose.window.length

/-- There is no file, or its size counts as none. -/
def CdMisses (purpose : Purpose) (disc : Disc) (path : List Byte) (memory : Memory) : Prop :=
  ∀ record, Holds disc path record →
    (readSize record (UInt32.ofNat purpose.limit) memory).toInt32 ≤ 0

section GetFile

variable {disc : Disc} {path : List Byte} {record : DirectoryRecord} {buffer : Nat}
  {maxLength : UInt32} {memory other : Memory} {purpose : Purpose}

/-- The size taken for a file fits exactly if the file is shorter than its limit or what
is found in the place of its limit fits. -/
theorem wholeBlocks_readSize_le_iff :
    (wholeBlocks (readSize record (UInt32.ofNat purpose.limit) memory)).toNat ≤
        purpose.window.length ↔
      record.size.toNat < purpose.limit ∨
        (wholeBlocks (UInt32.ofNat (memory.dword purpose.limit))).toNat ≤
          purpose.window.length := by
  have limit := purpose.toNat_limit
  unfold readSize
  rw [limit]
  split
  · next short =>
    rw [UInt32.lt_iff_toNat_lt, limit] at short
    have fits := toNat_wholeBlocks_le purpose.limit_whole purpose.limit_bounded short
    have room := purpose.limit_le
    exact iff_of_true (Nat.le_trans fits room) (.inl short)
  · next long =>
    rw [UInt32.lt_iff_toNat_lt, limit] at long
    exact ⟨.inr, fun fits => fits.resolve_left long⟩

theorem file_within_iff :
    (∀ extent ∈ (bootIso9660GetFile disc path purpose.window.start (UInt32.ofNat purpose.limit)
      memory).2.writes, extent.Within purpose.window) ↔ CdFits purpose disc path memory := by
  rcases getFile_cases disc path purpose.window.start (UInt32.ofNat purpose.limit) memory with
    ⟨record, holds, read⟩ | ⟨missing, read⟩
  · rw [read]
    refine readFile_within.trans (wholeBlocks_readSize_le_iff.trans ⟨?_, ?_⟩)
    · intro fits another holds'
      rwa [Disc.Found.unique holds' holds]
    · intro fits
      exact fits record holds
  · rw [read]
    exact iff_of_true (fun extent member => absurd member List.not_mem_nil)
      fun record holds => absurd holds (missing record)

theorem file_misses_iff :
    (bootIso9660GetFile disc path buffer (UInt32.ofNat purpose.limit) memory).1 ≤ 0 ↔
      CdMisses purpose disc path memory := by
  rcases getFile_cases disc path buffer (UInt32.ofNat purpose.limit) memory with
    ⟨record, holds, read⟩ | ⟨missing, read⟩
  · rw [read]
    constructor
    · intro misses another holds'
      rwa [Disc.Found.unique holds' holds]
    · intro misses
      exact misses record holds
  · rw [read]
    have negative : (-1 : Int32) ≤ 0 := by decide
    exact iff_of_true negative fun record holds => absurd holds (missing record)

/-- The size of a file depends on memory through the place of its limit alone. -/
theorem readSize_congr (same : memory.dword purpose.limit = other.dword purpose.limit) :
    readSize record (UInt32.ofNat purpose.limit) memory =
      readSize record (UInt32.ofNat purpose.limit) other := by
  unfold readSize
  rw [purpose.toNat_limit, same]

theorem CdFits.congr (same : memory.dword purpose.limit = other.dword purpose.limit) :
    CdFits purpose disc path memory ↔ CdFits purpose disc path other := by
  unfold CdFits
  rw [same]

theorem CdMisses.congr (same : memory.dword purpose.limit = other.dword purpose.limit) :
    CdMisses purpose disc path memory ↔ CdMisses purpose disc path other := by
  unfold CdMisses
  simp only [readSize_congr same]

/-- A file that fits a length leaves a word before or behind it alone. -/
theorem dword_after_file {length address : Nat}
    (fits : ∀ record, Holds disc path record →
      (wholeBlocks (readSize record maxLength memory)).toNat ≤ length)
    (outside : address + 4 ≤ buffer ∨ buffer + length ≤ address) :
    (bootIso9660GetFile disc path buffer maxLength memory).2.memory.dword address =
      memory.dword address := by
  rcases getFile_cases disc path buffer maxLength memory with ⟨record, holds, read⟩ | ⟨-, read⟩
  · rw [read]
    apply Memory.dword_congr
    intro k bound
    exact readFile_outside (fits record holds) (by omega)
  · rw [read]

/-- A size counts as none if it is zero or has its sign bit set. -/
theorem toInt32_le_zero {size : UInt32} (none : size.toInt32 ≤ 0) :
    size.toNat = 0 ∨ 2 ^ 31 ≤ size.toNat := by
  have signed : size.toBitVec.toInt ≤ 0 := Int32.le_iff_toInt_le.mp none
  rw [BitVec.toInt_eq_toNat_cond] at signed
  change (if 2 * size.toNat < 2 ^ 32 then (size.toNat : Int) else size.toNat - (2 ^ 32 : Nat)) ≤ 0
    at signed
  split at signed <;> omega

/-- A file that fits although its size counts as none has at most one block. -/
theorem wholeBlocks_le_of_misses {size : UInt32} (none : size.toInt32 ≤ 0)
    (fits : (wholeBlocks size).toNat ≤ freeldrMaxSize) : (wholeBlocks size).toNat ≤ 2048 := by
  have bound := size.toNat_lt
  unfold wholeBlocks at fits ⊢
  split at fits
  · next small =>
    rw [if_pos small]
    exact Nat.le_refl 2048
  · next large =>
    rw [if_neg large]
    rw [UInt32.toNat_add, toNat_blockRest] at fits ⊢
    have more : ¬size.toNat ≤ 2048 := fun small => large (UInt32.le_iff_toNat_le.mpr small)
    change _ ≤ 0x80000 at fits
    rcases toInt32_le_zero none with zero | negative
    · omega
    · omega

end GetFile

/-! ## Files on a FATX partition -/

/-- Every file a path leads to fits. -/
def FatxFits (purpose : Purpose) (disk : Disk) (stack : List Byte → Memory)
    (partition : FATXPartition) (path : List Byte) : Prop :=
  ∀ clusterId fileSize, Finds disk stack partition (normalized path) fatxRootFatCluster
    clusterId fileSize → fileSize.toNat ≤ purpose.window.length

/-! ## The loaders -/

/-- The loaders that store file data in windows, with what they are given. -/
inductive Loader where
  | detectLinuxNative (grub : Grub) (szGrub : Memory)
  | loadLinuxNative (grub : Grub) (szGrub : Memory) (optLinux : OptLinux)
  | loadLinuxFATX (disk : Disk) (arrays : Purpose → Arrays) (partition : Option FATXPartition)
      (optLinux : OptLinux)
  | detectLinuxCD (disc : Disc)
  | loadLinuxCD (disc : Disc) (optLinux : OptLinux)
  | loadReactOSNative (grub : Grub) (szGrub : Memory) (szPath : List Byte) (drive part : Byte)
  | loadReactOSFATX (disk : Disk) (arrays : Arrays) (partition : FATXPartition)
      (szPath : List Byte)
  | detectReactOSCD (disc : Disc)
  | loadReactOSCD (disc : Disc) (szPath : List Byte)

/-- Wherever a program stops that is started without file data, this holds. -/
def Always {α : Type} (held : Ram → Prop) (memory : Memory) (program : Program Ram α) : Prop :=
  program.Ensures ⟨memory, [], []⟩ held fun _ => held

/-- Wherever a loader stops, this holds. A FATX loader may be stopped at any time. -/
def Loader.Always (held : Ram → Prop) (memory : Memory) : Loader → Prop
  | detectLinuxNative grub szGrub => Boot.Always held memory (Boot.detectLinuxNative grub szGrub)
  | loadLinuxNative grub szGrub optLinux =>
    Boot.Always held memory (Boot.loadLinuxNative grub szGrub optLinux)
  | loadLinuxFATX disk arrays partition optLinux =>
    ∀ fuel, Boot.Always held memory (Boot.loadLinuxFATX disk arrays partition fuel optLinux)
  | detectLinuxCD disc => Boot.Always held memory (Boot.detectLinuxCD disc)
  | loadLinuxCD disc optLinux => Boot.Always held memory (Boot.loadLinuxCD disc optLinux)
  | loadReactOSNative grub szGrub szPath drive part =>
    Boot.Always held memory (Boot.loadReactOSNative grub szGrub szPath drive part)
  | loadReactOSFATX disk arrays partition szPath =>
    ∀ fuel, Boot.Always held memory (Boot.loadReactOSFATX disk arrays partition fuel szPath)
  | detectReactOSCD disc => Boot.Always held memory (Boot.detectReactOSCD disc)
  | loadReactOSCD disc szPath => Boot.Always held memory (Boot.loadReactOSCD disc szPath)

/-- The kernel that has been read can be placed. If it is not started, an initrd that is
named fits the memory there is then. -/
structure KernelFits (memory : Memory) (bytes : List Byte) (kernelSize : UInt32)
    (szInitrd : List Byte) (InitrdFits : Memory → Prop) : Prop where
  spares : KernelSpares initrdStart kernelSize (kernelRead memory bytes)
  initrd : KernelReturns initrdStart kernelSize (kernelRead memory bytes) →
    szInitrd.length ≠ 0 → InitrdFits (kernelMemory initrdStart kernelSize (kernelRead memory bytes))

/-- Every file the loader reads fits its window, and a kernel can be placed. -/
def Loader.Fits (memory : Memory) : Loader → Prop
  | detectLinuxNative grub szGrub =>
    let file := openConfig grub szGrub
    file.nRet = 1 ∧ file.errnum = 0 → (file.read file.filemax).2.length ≤ kernelHdrSize
  | loadLinuxNative grub szGrub optLinux =>
    let file := grub (szGrub.store 4 (strncpy optLinux.szKernel optLinux.szKernel.length))
    let (dwKernelSize, bytes) := file.read maxKernelSize
    file.nRet = 1 →
      KernelFits memory bytes (UInt32.ofNat dwKernelSize) optLinux.szInitrd fun _ => True
  | loadLinuxFATX _ _ none _ => True
  | loadLinuxFATX disk arrays (some partition) optLinux =>
    FatxFits .kernel disk (arrays .kernel).stack partition optLinux.szKernel ∧
      ∀ bytes, Fatx.IsFile disk (arrays .kernel).stack (arrays .kernel).loadStack partition
          optLinux.szKernel bytes →
        KernelFits memory bytes (UInt32.ofNat bytes.length) optLinux.szInitrd fun _ =>
          FatxFits .initrd disk (arrays .initrd).stack partition optLinux.szInitrd
  | detectLinuxCD disc =>
    CdFits .config disc (text "/linuxboo.cfg") memory ∧
      (CdMisses .config disc (text "/linuxboo.cfg") memory →
        CdFits .config disc (text "/linuxboot.cfg") memory)
  | loadLinuxCD disc optLinux =>
    CdFits .kernel disc optLinux.szKernel memory ∧
      ∀ record, Holds disc optLinux.szKernel record →
        let size := readSize record (UInt32.ofNat maxKernelSize) memory
        0 ≤ size.toInt32 →
          KernelFits memory (extentBytes disc ((wholeBlocks size).toNat / 2048) record.extent) size
            optLinux.szInitrd (CdFits .initrd disc optLinux.szInitrd)
  | loadReactOSNative grub szGrub szPath _ _ =>
    let file := grub (szGrub.store 4 (strncpy szPath szPath.length))
    file.nRet = 1 → (file.read file.filemax).2.length ≤ freeldrMaxSize
  | loadReactOSFATX disk arrays partition szPath =>
    FatxFits .freeldr disk arrays.stack partition szPath
  | detectReactOSCD disc =>
    CdFits .freeldr disc (text "/loader/freeldr.sys") memory ∧
      (CdMisses .freeldr disc (text "/loader/freeldr.sys") memory →
        CdFits .freeldr disc (text "/loader/setupldr.sys") memory)
  | loadReactOSCD _ _ => True

/-- The place of the kernel setup may be cleared. -/
theorem respects_cleared {ram : Ram} {memory : Memory} :
    (ram.move memory ⟨kernelSetup, kernelHdrSize⟩).Respects ↔ ram.Respects :=
  respects_move.trans (and_iff_right (spares_of_below (by decide)))

theorem respects_first {memory cleared : Memory} :
    (Ram.move ⟨memory, [], []⟩ cleared ⟨kernelSetup, kernelHdrSize⟩).Respects :=
  respects_cleared.mpr respects_start

/-- Placing a kernel and what follows respect the layout if the kernel can be placed, and
what follows does where the kernel is not started. -/
theorem place_bind_respects_iff {α : Type} {kernelOrg : Nat} {kernelSize : UInt32} {ram : Ram}
    {rest : Unit → Program Ram α} (Next : Memory → Prop)
    (following : ∀ after : Ram, (rest ()).Ensures after Ram.Respects (fun _ => Ram.Respects) ↔
      after.Respects ∧ Next after.memory) :
    (memPlaceKernel kernelOrg kernelSize >>= rest).Ensures ram Ram.Respects
        (fun _ => Ram.Respects) ↔
      ram.Respects ∧ KernelSpares kernelOrg kernelSize ram.memory ∧
        (KernelReturns kernelOrg kernelSize ram.memory →
          Next (kernelMemory kernelOrg kernelSize ram.memory)) := by
  have spec := memPlaceKernel_ensures kernelOrg kernelSize ram
  rw [ensures_bind]
  constructor
  · intro ensured
    refine Ensures.const ((ensured.and spec).mono ?_ ?_)
    · rintro after ⟨respects, started, respects_iff⟩
      obtain ⟨spares, before⟩ := respects_iff.mp respects
      exact ⟨before, spares, fun returns => absurd returns started⟩
    · rintro _ after ⟨followed, returns, -, memory, respects_iff⟩
      obtain ⟨respects, next⟩ := (following after).mp followed
      obtain ⟨spares, before⟩ := respects_iff.mp respects
      rw [memory] at next
      exact ⟨before, spares, fun _ => next⟩
  · rintro ⟨before, spares, next⟩
    refine spec.mono ?_ ?_
    · rintro after ⟨-, respects_iff⟩
      exact respects_iff.mpr ⟨spares, before⟩
    · rintro _ after ⟨returns, -, memory, respects_iff⟩
      refine (following after).mpr ⟨respects_iff.mpr ⟨spares, before⟩, ?_⟩
      rw [memory]
      exact next returns

/-- Bytes stored from the start of a window on stay inside if there are not too many. -/
theorem within_window_iff {purpose : Purpose} {length : Nat} :
    Extent.Within ⟨purpose.window.start, length⟩ purpose.window ↔
      length ≤ purpose.window.length := by
  unfold Extent.Within
  dsimp only
  omega

section Native

variable {grub : Grub} {szGrub memory : Memory}

theorem after_read_inside_iff (purpose : Purpose) {ram : Ram} {bytes : List Byte} :
    (ram.after purpose (ram.memory.store purpose.window.start bytes)
        [⟨purpose.window.start, bytes.length⟩]).Respects ↔
      bytes.length ≤ purpose.window.length ∧ ram.Respects := by
  rw [respects_after, List.forall_mem_singleton, within_window_iff]

theorem detectLinuxNative_inside_iff :
    Always Ram.Respects memory (detectLinuxNative grub szGrub) ↔
      Loader.Fits memory (.detectLinuxNative grub szGrub) := by
  simp only [Always, detectLinuxNative, Loader.Fits, ensures_bind, ensures_ite, ensures_pure,
    ensures_clear, ensures_grubRead]
  constructor
  · rintro ⟨-, inside⟩ ⟨opened, noError⟩
    have failed : ¬((openConfig grub szGrub).nRet ≠ 1 ∨ (openConfig grub szGrub).errnum ≠ 0) := by
      simp [opened, noError]
    exact ((after_read_inside_iff .config).mp (inside failed)).1
  · intro fits
    refine ⟨fun _ => respects_first, fun failed => ?_⟩
    obtain ⟨opened, noError⟩ := not_or.mp failed
    have short := fits ⟨not_not.mp opened, not_not.mp noError⟩
    exact (after_read_inside_iff .config).mpr ⟨short, respects_first⟩

/-- A read with the length of the window as its limit. -/
theorem grubRead_keeps (purpose : Purpose) {ram : Ram} (inside : ram.Respects) (file : GrubFile) :
    (grubRead purpose file purpose.window.start purpose.window.length).Ensures ram Ram.Respects
      fun _ => Ram.Respects := by
  have short := Nat.le_trans (file.read_le purpose.window.length) (Nat.min_le_left _ _)
  exact (after_read_inside_iff purpose).mpr ⟨short, inside⟩

/-- An initrd is read with a limit. -/
theorem initrdNative_inside_iff (file : GrubFile) (szInitrd : List Byte) (after : Ram) :
    (if szInitrd.length ≠ 0 then
        if file.filemax = 0 then
          return false
        else if file.nRet ≠ 1 ∨ file.errnum ≠ 0 then
          return false
        else do
          let _ ← grubRead .initrd file initrdStart maxInitrdSize
          return true
      else
        return true : Program Ram Bool).Ensures after Ram.Respects (fun _ => Ram.Respects) ↔
      after.Respects ∧ (szInitrd.length ≠ 0 → True) := by
  rw [ensures_ite, ensures_ite, ensures_ite, ensures_bind]
  constructor
  · rintro ⟨read, none⟩
    refine ⟨?_, fun _ => trivial⟩
    by_cases initrd : szInitrd.length ≠ 0
    · obtain ⟨empty, more⟩ := read initrd
      by_cases nothing : file.filemax = 0
      · exact empty nothing
      · obtain ⟨failed, opened⟩ := more nothing
        exact (em _).elim failed fun ok => ((after_read_inside_iff .initrd).mp (opened ok)).2
    · exact none initrd
  · rintro ⟨respects, -⟩
    refine ⟨fun _ => ⟨fun _ => respects, fun _ => ⟨fun _ => respects, fun _ => ?_⟩⟩,
      fun _ => respects⟩
    exact grubRead_keeps .initrd respects file

/-- Both files are read with a limit, and the kernel is placed. -/
theorem loadLinuxNative_inside_iff {optLinux : OptLinux} :
    Always Ram.Respects memory (loadLinuxNative grub szGrub optLinux) ↔
      Loader.Fits memory (.loadLinuxNative grub szGrub optLinux) := by
  unfold Always loadLinuxNative Loader.Fits
  dsimp only
  generalize grub (szGrub.store 4 (strncpy optLinux.szKernel optLinux.szKernel.length)) = file
  have short := Nat.le_trans (file.read_le maxKernelSize) (Nat.min_le_left _ _)
  rw [ensures_bind, ensures_clear, ensures_ite, ensures_pure, ensures_bind, ensures_grubRead,
    place_bind_respects_iff (fun _ => optLinux.szInitrd.length ≠ 0 → True)
      (initrdNative_inside_iff _ _),
    memory_after, memory_move]
  constructor
  · rintro ⟨-, opened⟩ ok
    obtain ⟨-, spares, initrd⟩ := opened (not_not.mpr ok)
    exact ⟨spares, initrd⟩
  · intro fits
    refine ⟨fun _ => respects_first, fun opened => ?_⟩
    obtain ⟨spares, initrd⟩ := fits (not_not.mp opened)
    exact ⟨(after_read_inside_iff .kernel).mpr ⟨short, respects_first⟩, spares, initrd⟩

theorem loadReactOSNative_inside_iff {szPath : List Byte} {drive part : Byte} :
    Always Ram.Respects memory (loadReactOSNative grub szGrub szPath drive part) ↔
      Loader.Fits memory (.loadReactOSNative grub szGrub szPath drive part) := by
  simp only [Always, loadReactOSNative, Loader.Fits, accept, ensures_bind, ensures_ite,
    ensures_pure, ensures_update, ensures_grubRead]
  constructor
  · rintro ⟨-, inside⟩ opened
    exact ((after_read_inside_iff .freeldr).mp (inside (not_not.mpr opened))).1
  · intro fits
    refine ⟨fun _ => respects_start, fun opened => ?_⟩
    exact (after_read_inside_iff .freeldr).mpr ⟨fits (not_not.mp opened), respects_start⟩

end Native

section CD

variable {disc : Disc} {memory : Memory}

/-- Reading a file from a CD keeps inside exactly if the file fits. -/
theorem after_getFile_inside_iff (purpose : Purpose) (disc : Disc) (path : List Byte)
    (ram : Ram) :
    (ram.after purpose
        (bootIso9660GetFile disc path purpose.window.start (UInt32.ofNat purpose.limit)
          ram.memory).2.memory
        (bootIso9660GetFile disc path purpose.window.start (UInt32.ofNat purpose.limit)
          ram.memory).2.writes).Respects ↔
      CdFits purpose disc path ram.memory ∧ ram.Respects := by
  rw [respects_after, file_within_iff]

/-- A second file is read if the first one is missed; both are read with one limit. -/
theorem two_files_inside_iff (purpose : Purpose) {first second : List Byte} {ram : Ram}
    {α : Type} (found : Int32 → α) (missed : Int32 → α) (inside : ram.Respects)
    (kept : CdFits purpose disc first ram.memory → CdMisses purpose disc first ram.memory →
      (bootIso9660GetFile disc first purpose.window.start (UInt32.ofNat purpose.limit)
        ram.memory).2.memory.dword purpose.limit = ram.memory.dword purpose.limit) :
    (do
      let size ← getFile purpose disc first purpose.window.start purpose.limit
      if size ≤ 0 then
        let size ← getFile purpose disc second purpose.window.start purpose.limit
        return missed size
      else
        return found size : Program Ram α).Ensures ram Ram.Respects (fun _ => Ram.Respects) ↔
      CdFits purpose disc first ram.memory ∧
        (CdMisses purpose disc first ram.memory → CdFits purpose disc second ram.memory) := by
  simp only [ensures_bind, ensures_getFile, ensures_ite, ensures_pure]
  rw [file_misses_iff, after_getFile_inside_iff, after_getFile_inside_iff]
  constructor
  · rintro ⟨missing, present⟩
    by_cases misses : CdMisses purpose disc first ram.memory
    · obtain ⟨fits', fits, -⟩ := missing misses
      exact ⟨fits, fun _ => (CdFits.congr (kept fits misses)).mp fits'⟩
    · exact ⟨(present misses).1, fun missed => absurd missed misses⟩
  · rintro ⟨fits, fits'⟩
    refine ⟨fun misses => ⟨?_, fits, inside⟩, fun _ => ⟨fits, inside⟩⟩
    exact (CdFits.congr (kept fits misses)).mpr (fits' misses)

theorem detectReactOSCD_inside_iff :
    Always Ram.Respects memory (detectReactOSCD disc) ↔
      Loader.Fits memory (.detectReactOSCD disc) := by
  refine two_files_inside_iff .freeldr _ _ respects_start fun fits misses => ?_
  have short : ∀ record, Holds disc (text "/loader/freeldr.sys") record →
      (wholeBlocks (readSize record (UInt32.ofNat Purpose.freeldr.limit) memory)).toNat ≤ 2048 := by
    intro record holds
    have whole := wholeBlocks_readSize_le_iff.mpr (fits record holds)
    exact wholeBlocks_le_of_misses (misses record holds) whole
  exact dword_after_file short (.inr (by decide))

/-- The area of the kernel setup is away from the addresses of the limits. -/
theorem dword_limit_after_clear (purpose : Purpose) :
    (memory.memset kernelSetup 0 kernelHdrSize).dword purpose.limit =
      memory.dword purpose.limit := by
  apply Memory.dword_memset_other
  cases purpose <;> decide

theorem detectLinuxCD_inside_iff :
    Always Ram.Respects memory (detectLinuxCD disc) ↔ Loader.Fits memory (.detectLinuxCD disc) := by
  unfold Always detectLinuxCD
  rw [ensures_bind, ensures_clear]
  have setup : (memory.memset kernelSetup 0 kernelHdrSize).dword Purpose.config.limit =
      memory.dword Purpose.config.limit := dword_limit_after_clear .config
  refine (two_files_inside_iff .config _ _ respects_first fun fits _ => ?_).trans ?_
  · have short : ∀ record, Holds disc (text "/linuxboo.cfg") record →
        (wholeBlocks (readSize record (UInt32.ofNat Purpose.config.limit)
          (memory.memset kernelSetup 0 kernelHdrSize))).toNat ≤ Purpose.config.window.length :=
      fun record holds => wholeBlocks_readSize_le_iff.mpr (fits record holds)
    exact dword_after_file short (.inl (by decide))
  · unfold Ram.move
    dsimp only
    rw [CdFits.congr setup, CdMisses.congr setup, CdFits.congr setup]
    exact Iff.rfl

/-- Of an initrd on a CD only the file matters. -/
theorem initrdCD_inside_iff {szInitrd : List Byte} (after : Ram) :
    (if szInitrd.length ≠ 0 then do
        let dwInitrdSize ← getFile .initrd disc szInitrd initrdStart maxInitrdSize
        return decide (0 ≤ dwInitrdSize)
      else
        return true : Program Ram Bool).Ensures after Ram.Respects (fun _ => Ram.Respects) ↔
      after.Respects ∧ (szInitrd.length ≠ 0 → CdFits .initrd disc szInitrd after.memory) := by
  rw [ensures_ite]
  constructor
  · rintro ⟨read, none⟩
    by_cases initrd : szInitrd.length ≠ 0
    · obtain ⟨fits, respects⟩ :=
        (after_getFile_inside_iff .initrd disc szInitrd after).mp (read initrd)
      exact ⟨respects, fun _ => fits⟩
    · exact ⟨none initrd, fun some => absurd some initrd⟩
  · rintro ⟨respects, fits⟩
    refine ⟨fun initrd => ?_, fun _ => respects⟩
    exact (after_getFile_inside_iff .initrd disc szInitrd after).mpr ⟨fits initrd, respects⟩

/-- A kernel on a CD is read to its place block by block. -/
theorem kernel_read_cd (memory : Memory) {path : List Byte} {record : DirectoryRecord}
    (holds : Holds disc path record) :
    (bootIso9660GetFile disc path initrdStart (UInt32.ofNat maxKernelSize)
        (memory.memset kernelSetup 0 kernelHdrSize)).1 =
      (readSize record (UInt32.ofNat maxKernelSize) memory).toInt32 ∧
    (bootIso9660GetFile disc path initrdStart (UInt32.ofNat maxKernelSize)
        (memory.memset kernelSetup 0 kernelHdrSize)).2.memory =
      kernelRead memory (extentBytes disc ((wholeBlocks
        (readSize record (UInt32.ofNat maxKernelSize) memory)).toNat / 2048) record.extent) := by
  have size : readSize record (UInt32.ofNat maxKernelSize)
      (memory.memset kernelSetup 0 kernelHdrSize) =
      readSize record (UInt32.ofNat maxKernelSize) memory :=
    readSize_congr (dword_limit_after_clear .kernel)
  rw [getFile_found holds, size]
  refine ⟨rfl, ?_⟩
  dsimp only
  rw [readFile_memory, size]
  rfl

theorem loadLinuxCD_inside_iff {optLinux : OptLinux} :
    Always Ram.Respects memory (loadLinuxCD disc optLinux) ↔
      Loader.Fits memory (.loadLinuxCD disc optLinux) := by
  have setup : (memory.memset kernelSetup 0 kernelHdrSize).dword Purpose.kernel.limit =
      memory.dword Purpose.kernel.limit := dword_limit_after_clear .kernel
  have loaded_iff := after_getFile_inside_iff .kernel disc optLinux.szKernel
    (Ram.move ⟨memory, [], []⟩ (memory.memset kernelSetup 0 kernelHdrSize)
      ⟨kernelSetup, kernelHdrSize⟩)
  rw [memory_move, CdFits.congr setup, and_iff_left respects_first] at loaded_iff
  unfold Always loadLinuxCD
  rw [ensures_bind, ensures_clear, ensures_bind, ensures_getFile, ensures_ite, ensures_pure,
    place_bind_respects_iff (fun memory => optLinux.szInitrd.length ≠ 0 →
      CdFits .initrd disc optLinux.szInitrd memory) initrdCD_inside_iff, memory_move, memory_after]
  constructor
  · rintro ⟨negative, nonneg⟩
    have loaded := (em _).elim negative fun sign => (nonneg sign).1
    refine ⟨loaded_iff.mp loaded, fun record holds counts => ?_⟩
    obtain ⟨size, stored⟩ := kernel_read_cd memory holds
    rw [size, stored, UInt32.toUInt32_toInt32] at nonneg
    obtain ⟨-, spares, initrd⟩ := nonneg (Int32.not_lt.mpr counts)
    exact ⟨spares, initrd⟩
  · rintro ⟨fits, kernel⟩
    have loaded := loaded_iff.mpr fits
    refine ⟨fun _ => loaded, fun sign => ⟨loaded, ?_⟩⟩
    rcases getFile_cases disc optLinux.szKernel initrdStart (UInt32.ofNat maxKernelSize)
      (memory.memset kernelSetup 0 kernelHdrSize) with ⟨record, holds, -⟩ | ⟨-, missed⟩
    · obtain ⟨size, stored⟩ := kernel_read_cd memory holds
      rw [size] at sign
      obtain ⟨spares, initrd⟩ := kernel record holds (Int32.not_lt.mp sign)
      rw [size, stored, UInt32.toUInt32_toInt32]
      exact ⟨spares, initrd⟩
    · have negative : (-1 : Int32) < 0 := by decide
      rw [missed] at sign
      exact absurd negative sign

/-- The load area is cleared before, and the address of the limit lies in it. -/
theorem loadReactOSCD_inside (szPath : List Byte) :
    Always Ram.Respects memory (loadReactOSCD disc szPath) := by
  have zero : (memory.memset freeldrLoadArea 0 freeldrMaxSize).dword Purpose.freeldr.limit =
      0 := by
    apply Memory.dword_memset_zero
    · decide
    · decide
  have fits : CdFits .freeldr disc szPath (memory.memset freeldrLoadArea 0 freeldrMaxSize) := by
    intro record holds
    have block : wholeBlocks (UInt32.ofNat 0) = isoBlocksize := rfl
    have room : (2048 : Nat) ≤ 0x80000 := by omega
    rw [zero, block]
    exact .inr room
  have area : (Ram.move ⟨memory, [], []⟩ (memory.memset freeldrLoadArea 0 freeldrMaxSize)
      ⟨freeldrLoadArea, freeldrMaxSize⟩).Respects :=
    respects_move.mpr ⟨spares_of_below (by decide), respects_start⟩
  have loaded := (after_getFile_inside_iff .freeldr disc szPath (Ram.move ⟨memory, [], []⟩
    (memory.memset freeldrLoadArea 0 freeldrMaxSize)
    ⟨freeldrLoadArea, freeldrMaxSize⟩)).mpr (by rw [memory_move]; exact ⟨fits, area⟩)
  simp only [Always, loadReactOSCD, accept, ensures_bind, ensures_clear, ensures_getFile,
    ensures_ite, ensures_pure, ensures_update]
  exact ⟨fun _ => loaded, fun _ => loaded⟩

end CD

section FATX

variable {disk : Disk} {memory : Memory} {fuel : Nat}

/-- If a load that may run for long stays inside, then every file found fits. -/
theorem fatxFits_of_within (purpose : Purpose) {arrays : Arrays} {partition : FATXPartition}
    {path : List Byte}
    (within : ∀ base, ∃ more memory, ∀ extent ∈ (loadFATXFilefixed disk arrays.ba arrays.stack
      arrays.loadStack purpose.window.start (some partition) (base + more) path ⟨[], 0, 0, 0⟩
      memory).writes, extent.Within purpose.window) :
    FatxFits purpose disk arrays.stack partition path := by
  intro clusterId fileSize finds
  obtain ⟨base, filled⟩ := loadFATXFilefixed_fills arrays.ba arrays.loadStack
    purpose.window.start ⟨[], 0, 0, 0⟩ finds
  obtain ⟨more, memory, within⟩ := within base
  exact within_window_iff.mp (within _ (filled more memory))

/-- A load and what follows stay inside if the load does, and what follows where the load
has come to an end. -/
theorem loadFixed_bind_inside_iff {purpose : Purpose} {arrays : Arrays}
    {partition : Option FATXPartition} {position : Nat} {path : List Byte} {ram : Ram} {α : Type}
    {rest : Bool × FATXFileInfo → Program Ram α} (Next : Bool → FATXFileInfo → Memory → Prop)
    (following : ∀ success info ram,
      (rest (success, info)).Ensures ram Ram.Respects (fun _ => Ram.Respects) ↔
        ram.Respects ∧ Next success info ram.memory)
    {run : LoadRun} (ran : loadFATXFilefixed disk arrays.ba arrays.stack arrays.loadStack position
      partition fuel path ⟨[], 0, 0, 0⟩ ram.memory = run) :
    (loadFixed purpose disk arrays partition fuel path position >>= rest).Ensures ram Ram.Respects
        (fun _ => Ram.Respects) ↔
      ((∀ extent ∈ run.writes, extent.Within purpose.window) ∧ ram.Respects) ∧
        ∀ success, run.result = some success → Next success run.fileinfo run.memory := by
  rw [ensures_bind, ensures_loadFixed ran, respects_after]
  constructor
  · rintro ⟨cutOff, returned⟩
    cases ended : run.result with
    | none => exact ⟨cutOff ended, nofun⟩
    | some success =>
        obtain ⟨inside, next⟩ := (following _ _ _).mp (returned success ended)
        refine ⟨respects_after.mp inside, fun _ same => ?_⟩
        cases same
        exact next
  · rintro ⟨inside, next⟩
    exact ⟨fun _ => inside, fun success ended =>
      (following _ _ _).mpr ⟨respects_after.mpr inside, next success ended⟩⟩

theorem loadReactOSFATX_inside_iff {arrays : Arrays} {partition : FATXPartition}
    {szPath : List Byte} :
    (∀ fuel, Always Ram.Respects memory (loadReactOSFATX disk arrays partition fuel szPath)) ↔
      Loader.Fits memory (.loadReactOSFATX disk arrays partition szPath) := by
  have stored : ∀ fuel,
      Always Ram.Respects memory (loadReactOSFATX disk arrays partition fuel szPath) ↔
        ∀ extent ∈ (loadFATXFilefixed disk arrays.ba arrays.stack arrays.loadStack
          freeldrLoadArea (some partition) fuel szPath ⟨[], 0, 0, 0⟩ memory).writes,
          extent.Within Purpose.freeldr.window := by
    intro fuel
    refine (loadFixed_bind_inside_iff (fun _ _ _ => True) ?_ rfl).trans ?_
    · intro success info ram
      rw [ensures_ite]
      exact ⟨fun inside => ⟨(em _).elim inside.1 inside.2, trivial⟩,
        fun inside => ⟨fun _ => inside.1, fun _ => inside.1⟩⟩
    · exact ⟨fun inside => inside.1.1, fun within => ⟨⟨within, respects_start⟩, fun _ _ => trivial⟩⟩
  simp only [stored]
  constructor
  · intro within
    exact fatxFits_of_within .freeldr fun base => ⟨0, memory, within base⟩
  · intro fits fuel
    exact loadFATXFilefixed_within fits fuel

/-- What is stored for an initrd stays inside its window. -/
def InitrdWithin (disk : Disk) (arrays : Arrays) (partition : Option FATXPartition) (fuel : Nat)
    (szInitrd : List Byte) (memory : Memory) : Prop :=
  szInitrd.length ≠ 0 → ∀ extent ∈ (loadFATXFilefixed disk arrays.ba arrays.stack
    arrays.loadStack initrdStart partition fuel szInitrd ⟨[], 0, 0, 0⟩ memory).writes,
    extent.Within Purpose.initrd.window

theorem initrdFATX_inside_iff (arrays : Arrays) (partition : Option FATXPartition)
    (szInitrd : List Byte) (after : Ram) :
    (if szInitrd.length ≠ 0 then do
        let (loaded, _) ← loadFixed .initrd disk arrays partition fuel szInitrd initrdStart
        return loaded
      else
        return true : Program Ram Bool).Ensures after Ram.Respects (fun _ => Ram.Respects) ↔
      after.Respects ∧ InitrdWithin disk arrays partition fuel szInitrd after.memory := by
  unfold InitrdWithin
  rw [ensures_ite, loadFixed_bind_inside_iff (fun _ _ _ => True)
    (fun _ _ _ => (and_iff_left trivial).symm) rfl]
  constructor
  · rintro ⟨read, none⟩
    by_cases initrd : szInitrd.length ≠ 0
    · obtain ⟨⟨within, respects⟩, -⟩ := read initrd
      exact ⟨respects, fun _ => within⟩
    · exact ⟨none initrd, fun some => absurd some initrd⟩
  · rintro ⟨respects, within⟩
    exact ⟨fun initrd => ⟨⟨within initrd, respects⟩, fun _ _ => trivial⟩, fun _ => respects⟩

/-- Once a kernel is loaded it is placed, and the initrd follows. -/
theorem placeFATX_inside_iff (arrays : Arrays) (partition : Option FATXPartition)
    (szInitrd : List Byte) (success : Bool) (kernelSize : UInt32) (ram : Ram) :
    (if success = false then
      return false
    else do
      memPlaceKernel initrdStart kernelSize
      if szInitrd.length ≠ 0 then
        let (loaded, _) ← loadFixed .initrd disk arrays partition fuel szInitrd initrdStart
        return loaded
      else
        return true : Program Ram Bool).Ensures ram Ram.Respects (fun _ => Ram.Respects) ↔
      ram.Respects ∧ (success = true → KernelSpares initrdStart kernelSize ram.memory ∧
        (KernelReturns initrdStart kernelSize ram.memory →
          InitrdWithin disk arrays partition fuel szInitrd
            (kernelMemory initrdStart kernelSize ram.memory))) := by
  cases success with
  | false => exact ⟨fun respects => ⟨respects, nofun⟩, fun respects => respects.1⟩
  | true =>
      rw [if_neg (by decide), place_bind_respects_iff
        (InitrdWithin disk arrays partition fuel szInitrd)
        (initrdFATX_inside_iff arrays partition szInitrd)]
      exact and_congr_right fun _ => ⟨fun next _ => next, fun next => next rfl⟩

/-- What is stored for the kernel and, once it is loaded, where it is placed and what is
stored for the initrd. -/
theorem loadLinuxFATX_stores_iff {arrays : Purpose → Arrays} {partition : Option FATXPartition}
    {optLinux : OptLinux} {run : LoadRun}
    (ran : loadFATXFilefixed disk (arrays .kernel).ba (arrays .kernel).stack
      (arrays .kernel).loadStack initrdStart partition fuel optLinux.szKernel ⟨[], 0, 0, 0⟩
      (memory.memset kernelSetup 0 kernelHdrSize) = run) :
    Always Ram.Respects memory (loadLinuxFATX disk arrays partition fuel optLinux) ↔
      (∀ extent ∈ run.writes, extent.Within Purpose.kernel.window) ∧
        (run.result = some true → KernelSpares initrdStart run.fileinfo.fileSize run.memory ∧
          (KernelReturns initrdStart run.fileinfo.fileSize run.memory →
            InitrdWithin disk (arrays .initrd) partition fuel optLinux.szInitrd
              (kernelMemory initrdStart run.fileinfo.fileSize run.memory))) := by
  unfold Always loadLinuxFATX
  rw [ensures_bind, ensures_clear]
  refine (loadFixed_bind_inside_iff (fun success info memory => success = true →
    KernelSpares initrdStart info.fileSize memory ∧
      (KernelReturns initrdStart info.fileSize memory →
        InitrdWithin disk (arrays .initrd) partition fuel optLinux.szInitrd
          (kernelMemory initrdStart info.fileSize memory)))
    (fun success info ram => placeFATX_inside_iff (arrays .initrd) partition optLinux.szInitrd
      success info.fileSize ram) ran).trans ?_
  constructor
  · rintro ⟨⟨within, -⟩, next⟩
    exact ⟨within, fun loaded => next true loaded rfl⟩
  · rintro ⟨within, next⟩
    refine ⟨⟨within, respects_first⟩, fun success ended loaded => ?_⟩
    subst loaded
    exact next ended

theorem loadLinuxFATX_inside_iff {arrays : Purpose → Arrays} {partition : Option FATXPartition}
    {optLinux : OptLinux} :
    (∀ fuel, Always Ram.Respects memory (loadLinuxFATX disk arrays partition fuel optLinux)) ↔
      Loader.Fits memory (.loadLinuxFATX disk arrays partition optLinux) := by
  simp only [loadLinuxFATX_stores_iff rfl]
  cases partition with
  | none => exact iff_of_true (fun _ => ⟨nofun, nofun⟩) trivial
  | some partition =>
      constructor
      · intro within
        refine ⟨fatxFits_of_within .kernel fun base => ⟨0, _, (within base).1⟩, ?_⟩
        intro bytes file
        obtain ⟨enough, given⟩ := fileBytes_of_isFile (arrays .kernel).ba ⟨[], 0, 0, 0⟩ file
        -- With enough fuel the file is loaded and placed.
        have placed : ∀ more, KernelSpares initrdStart (UInt32.ofNat bytes.length)
              (kernelRead memory bytes) ∧
            (KernelReturns initrdStart (UInt32.ofNat bytes.length) (kernelRead memory bytes) →
              InitrdWithin disk (arrays .initrd) (some partition) (enough + more)
                optLinux.szInitrd (kernelMemory initrdStart (UInt32.ofNat bytes.length)
                  (kernelRead memory bytes))) := by
          intro more
          obtain ⟨result, stored⟩ := (loadFATXFilefixed_reads _ rfl).2 bytes (given more)
          have next := (within (enough + more)).2 result
          rwa [stored, fileSize_of_fileBytes (given more)] at next
        refine ⟨(placed 0).1, fun returns initrd => fatxFits_of_within .initrd fun base => ?_⟩
        have stored := (placed base).2 returns initrd
        rw [Nat.add_comm] at stored
        exact ⟨enough, _, stored⟩
      · rintro ⟨kernel, placed⟩ fuel
        refine ⟨loadFATXFilefixed_within kernel fuel, fun loaded => ?_⟩
        obtain ⟨unread, reads⟩ := loadFATXFilefixed_reads _ (rfl : loadFATXFilefixed disk
          (arrays .kernel).ba (arrays .kernel).stack (arrays .kernel).loadStack initrdStart
          (some partition) fuel optLinux.szKernel ⟨[], 0, 0, 0⟩
          (memory.memset kernelSetup 0 kernelHdrSize) = _)
        cases given : fileBytes disk (arrays .kernel).ba (arrays .kernel).stack
            (arrays .kernel).loadStack partition fuel optLinux.szKernel ⟨[], 0, 0, 0⟩ with
        | none => exact absurd loaded (unread given)
        | some bytes =>
            obtain ⟨-, stored⟩ := reads bytes given
            obtain ⟨spares, initrd⟩ := placed bytes (isFile_of_fileBytes given)
            rw [stored, fileSize_of_fileBytes given]
            exact ⟨spares, fun returns named =>
              loadFATXFilefixed_within (initrd returns named) fuel⟩

end FATX

/-! ## All loaders -/

/-- A loader stores file data inside the windows only, and leaves the descriptor tables, the
heap and everything behind it alone, if and only if the files it reads fit and the kernel
among them can be placed. -/
theorem loaders_respect_layout_iff (loader : Loader) (memory : Memory) :
    loader.Always Ram.Respects memory ↔ loader.Fits memory := by
  cases loader with
  | detectLinuxNative => exact detectLinuxNative_inside_iff
  | loadLinuxNative => exact loadLinuxNative_inside_iff
  | loadLinuxFATX => exact loadLinuxFATX_inside_iff
  | detectLinuxCD => exact detectLinuxCD_inside_iff
  | loadLinuxCD => exact loadLinuxCD_inside_iff
  | loadReactOSNative => exact loadReactOSNative_inside_iff
  | loadReactOSFATX => exact loadReactOSFATX_inside_iff
  | detectReactOSCD => exact detectReactOSCD_inside_iff
  | loadReactOSCD disc szPath => exact iff_of_true (loadReactOSCD_inside szPath) trivial

/-- A configuration file of 128 KB, all spaces. -/
def longConfig : GrubFile where
  nRet := 1
  errnum := 0
  filemax := 0x20000
  read len := (min len 0x20000, List.replicate (min len 0x20000) 0x20)
  read_le _ := Nat.le_of_eq List.length_replicate

theorem openConfig_const (file : GrubFile) (szGrub : Memory) :
    openConfig (fun _ => file) szGrub = file := ite_self file

/-- It is read over the descriptor tables. -/
theorem long_config_overwrites_gdt :
    ¬(Loader.detectLinuxNative (fun _ => longConfig) (fun _ => 0)).Always Ram.Respects
        (fun _ => 0) ∧
      ¬(Loader.detectLinuxNative (fun _ => longConfig) (fun _ => 0)).Always
        (fun ram => ram.memory gdtLoc = 0) (fun _ => 0) := by
  have length : (longConfig.read longConfig.filemax).2.length = 0x20000 :=
    List.length_replicate.trans (Nat.min_self 0x20000)
  have opened : ¬(longConfig.nRet ≠ 1 ∨ longConfig.errnum ≠ 0) := by decide
  constructor
  · intro inside
    have fits := detectLinuxNative_inside_iff.mp inside
    dsimp only [Loader.Fits] at fits
    rw [openConfig_const, length] at fits
    exact absurd (fits (by decide)) (by decide)
  · intro untouched
    dsimp only [Loader.Always, Boot.Always, detectLinuxNative] at untouched
    rw [ensures_bind, ensures_clear, openConfig_const, if_neg opened, ensures_bind,
      ensures_grubRead, ensures_pure] at untouched
    have written : ∀ memory : Memory, memory.store kernelSetup
        (longConfig.read longConfig.filemax).2 gdtLoc = 0x20 := by
      intro memory
      rw [Memory.store_inside _ (by decide) (by rw [length]; decide)]
      exact List.getElem_replicate _
    dsimp only [Ram.after] at untouched
    rw [written] at untouched
    exact absurd untouched (by decide)

end Cromwell.Boot
