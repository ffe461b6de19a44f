import Cromwell.Boot.MemoryLayout
import Cromwell.Fatx.Load
import Cromwell.Iso9660.ReadFile
import Cromwell.Lib.BootLibrary

/-!
# Reading a file from a medium

Files come from a drive with a native file system, from a FATX partition or from a CD. The
native reader gives at most as many bytes as it is asked for and as the file has; the FATX
loader is given a position and no limit; the CD reader is given a limit.
-/

namespace Cromwell.Boot

open Cromwell.Std Cromwell.Lib Cromwell.Fatx Cromwell.Iso9660

/-! ## Native file systems -/

/-- What opening a file has led to, and what reading it would give: the value returned
and the bytes stored for each length asked for. -/
structure GrubFile where
  nRet : Int
  errnum : Nat
  filemax : Nat
  read : (len : Nat) → Nat × List Byte
  read_le : ∀ len, (read len).2.length ≤ min len filemax

/-- The native reader: what `grub_open` makes of a request. -/
abbrev Grub := (szGrub : Memory) → GrubFile

/-- `grub_read`: what the file gives is stored for a purpose. -/
def grubRead (purpose : Purpose) (file : GrubFile) (address len : Nat) : Program Ram Nat :=
  .update fun ram =>
    let (value, bytes) := file.read len
    (value, ram.after purpose (ram.memory.store address bytes) [⟨address, bytes.length⟩])

/-! ## FATX partitions -/

/-- What the uninitialised arrays of a load hold before. -/
structure Arrays where
  ba : Memory
  stack : List Byte → Memory
  loadStack : Memory

/-- A file is loaded to a position; the memory is as it is then even if the load is not
over. -/
def loadFixed (purpose : Purpose) (disk : Disk) (arrays : Arrays)
    (partition : Option FATXPartition) (fuel : Nat) (filename : List Byte) (position : Nat) :
    Program Ram (Bool × FATXFileInfo) := fun ram =>
  let run := loadFATXFilefixed disk arrays.ba arrays.stack arrays.loadStack position partition
    fuel filename ⟨[], 0, 0, 0⟩ ram.memory
  let ram := ram.after purpose run.memory run.writes
  match run.result with
  | none => .next ram
  | some success => .leave ((success, run.fileinfo), ram)

/-! ## CDs -/

/-- `BootIso9660GetFile`: whole blocks are stored for a purpose. -/
def getFile (purpose : Purpose) (disc : Disc) (path : List Byte) (buffer maxLength : Nat) :
    Program Ram Int32 :=
  .update fun ram =>
    let (result, copied) := bootIso9660GetFile disc path buffer (UInt32.ofNat maxLength) ram.memory
    (result, ram.after purpose copied.memory copied.writes)

/-! ## What they ensure -/

section Rules

variable {purpose : Purpose} {ram : Ram} {cut : Ram → Prop}

/-- What holds after a native file has been read. -/
@[simp] theorem ensures_grubRead {file : GrubFile} {address len : Nat}
    {returned : Nat → Ram → Prop} :
    (grubRead purpose file address len).Ensures ram cut returned ↔
      returned (file.read len).1 (ram.after purpose (ram.memory.store address (file.read len).2)
        [⟨address, (file.read len).2.length⟩]) := Iff.rfl

/-- What holds after a file has been read from a CD. -/
@[simp] theorem ensures_getFile {disc : Disc} {path : List Byte} {buffer maxLength : Nat}
    {returned : Int32 → Ram → Prop} :
    (getFile purpose disc path buffer maxLength).Ensures ram cut returned ↔
      returned (bootIso9660GetFile disc path buffer (UInt32.ofNat maxLength) ram.memory).1
        (ram.after purpose
          (bootIso9660GetFile disc path buffer (UInt32.ofNat maxLength) ram.memory).2.memory
          (bootIso9660GetFile disc path buffer (UInt32.ofNat maxLength) ram.memory).2.writes) :=
  Iff.rfl

/-- What holds after a FATX file has been read. -/
theorem ensures_loadFixed {disk : Disk} {arrays : Arrays} {partition : Option FATXPartition}
    {fuel position : Nat} {filename : List Byte} {returned : Bool × FATXFileInfo → Ram → Prop}
    {run : LoadRun} (ran : loadFATXFilefixed disk arrays.ba arrays.stack arrays.loadStack position
      partition fuel filename ⟨[], 0, 0, 0⟩ ram.memory = run) :
    (loadFixed purpose disk arrays partition fuel filename position).Ensures ram cut returned ↔
      (run.result = none → cut (ram.after purpose run.memory run.writes)) ∧
        ∀ success, run.result = some success →
          returned (success, run.fileinfo) (ram.after purpose run.memory run.writes) := by
  subst ran
  unfold loadFixed Program.Ensures
  dsimp only
  split
  · next cutOff =>
    rw [cutOff]
    exact ⟨fun held => ⟨fun _ => held, nofun⟩, fun held => held.1 rfl⟩
  · next success ended =>
    rw [ended]
    refine ⟨fun held => ⟨nofun, fun _ same => ?_⟩, fun held => held.2 success rfl⟩
    cases same
    exact held

end Rules

end Cromwell.Boot
