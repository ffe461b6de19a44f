import Cromwell.Fatx.Accesses

/-!
# What loading a file stores

A file is stored within as many bytes as its directory entry says, whatever its chain looks
like.
-/

namespace Cromwell.Fatx

open Cromwell.Std

variable {disk : Disk} {ba : Memory} {stack : List Byte → Memory} {partition : FATXPartition}
  {loadStack memory : Memory} {fileinfo : FATXFileInfo} {buffer : Nat} {accesses : List Access}

/-- The part of a cluster that is copied. -/
theorem toNat_written (fileSize : UInt32) (partition : FATXPartition) :
    (if fileSize ≤ partition.clusterSize then fileSize else partition.clusterSize).toNat =
      min fileSize.toNat 0x4000 := by
  rw [partition.clusterSize_eq]
  split
  · next fits =>
    have bound : fileSize.toNat ≤ 0x4000 := UInt32.le_iff_toNat_le.mp fits
    exact (Nat.min_eq_left bound).symm
  · next long =>
    have bound : ¬fileSize.toNat ≤ 0x4000 := fun fits => long (UInt32.le_iff_toNat_le.mpr fits)
    exact (Nat.min_eq_right (Nat.le_of_not_le bound)).symm

/-- What is left after a cluster. -/
theorem toNat_left (fileSize : UInt32) (partition : FATXPartition) :
    (fileSize - if fileSize ≤ partition.clusterSize then fileSize
      else partition.clusterSize).toNat = fileSize.toNat - 0x4000 := by
  have written := toNat_written fileSize partition
  rw [UInt32.toNat_sub_of_le _ _ (UInt32.le_iff_toNat_le.mpr (by omega)), written]
  omega

/-- What is written so far lies before the next position, and the rest of the file behind it. -/
structure Bounded (buffer size : Nat) (load : FileLoad) : Prop where
  position : load.ptr + load.fileSize.toNat = buffer + size
  written : ∀ extent ∈ load.writes, extent.Within ⟨buffer, size⟩
  start : buffer ≤ load.ptr

theorem loadPass_bounded {size : Nat} {load : FileLoad} (bounded : Bounded buffer size load) :
    (loadPass disk ba partition load).Ends (Bounded buffer size)
      fun load => ∀ extent ∈ load.writes, extent.Within ⟨buffer, size⟩ := by
  obtain ⟨position, written, start⟩ := bounded
  unfold loadPass
  split
  · exact written
  · have count := toNat_written load.fileSize partition
    have left := toNat_left load.fileSize partition
    constructor
    · simp only [count, left]
      omega
    · intro extent member
      rcases List.mem_cons.mp member with rfl | earlier
      · simp only [Extent.Within, count]
        omega
      · exact written extent earlier
    · exact Nat.le_trans start (Nat.le_add_right _ _)

/-- A file is stored within its size. -/
theorem fatxLoadFromDisk_within (fuel : Nat) :
    ∀ extent ∈ (fatxLoadFromDisk disk ba loadStack partition fuel fileinfo buffer memory
      accesses).writes, extent.Within ⟨buffer, fileinfo.fileSize.toNat⟩ := by
  have entered : Bounded buffer fileinfo.fileSize.toNat
      (fileinfo.start loadStack buffer memory accesses) :=
    ⟨rfl, fun extent member => absurd member List.not_mem_nil, Nat.le_refl buffer⟩
  have ends : (whileLoop (loadPass disk ba partition) fuel
      (fileinfo.start loadStack buffer memory accesses)).Ends
        (Bounded buffer fileinfo.fileSize.toNat)
        fun load => ∀ extent ∈ load.writes, extent.Within ⟨buffer, fileinfo.fileSize.toNat⟩ :=
    whileLoop_ends entered (fun _ bounded => loadPass_bounded bounded) fuel
  rw [fatxLoadFromDisk]
  cases run : whileLoop (loadPass disk ba partition) fuel
      (fileinfo.start loadStack buffer memory accesses) with
  | next load =>
      rw [run] at ends
      exact ends.written
  | leave load =>
      rw [run] at ends
      exact ends

/-- The whole range of a file found is filled before it is loaded, given enough fuel. -/
theorem loadFATXFilefixed_fills (ba loadStack : Memory) (position : Nat) {filename : List Byte}
    (fileinfo : FATXFileInfo) {clusterId : Int32} {fileSize : UInt32}
    (finds : Finds disk stack partition (normalized filename) fatxRootFatCluster clusterId
      fileSize) :
    ∃ base, ∀ more memory, ⟨position, fileSize.toNat⟩ ∈ (loadFATXFilefixed disk ba stack loadStack
      position (some partition) (base + more) filename fileinfo memory).writes := by
  obtain ⟨base, info, returned, -, rfl⟩ := result_of_finds fileinfo ba [] finds
  refine ⟨base, fun more memory => ?_⟩
  have returned : (fatxFindFile disk ba stack partition (base + more) filename
      fatxRootFatCluster fileinfo []).result = some (some info) :=
    findFile_fuel_add returned more
  rw [loadFATXFilefixed, loadByName]
  dsimp only
  rw [returned]
  exact List.mem_append_right _ List.mem_cons_self

/-- A file is stored within any length that no file found exceeds. -/
theorem loadFATXFilefixed_within {filename : List Byte} {position length : Nat}
    (short : ∀ clusterId fileSize, Finds disk stack partition (normalized filename)
      fatxRootFatCluster clusterId fileSize → fileSize.toNat ≤ length) (fuel : Nat) :
    ∀ extent ∈ (loadFATXFilefixed disk ba stack loadStack position (some partition) fuel
      filename fileinfo memory).writes, extent.Within ⟨position, length⟩ := by
  intro extent member
  rw [loadFATXFilefixed, loadByName] at member
  dsimp only at member
  cases returned : (fatxFindFile disk ba stack partition fuel filename fatxRootFatCluster
      fileinfo []).result with
  | none =>
      rw [returned] at member
      exact absurd member List.not_mem_nil
  | some found =>
      rw [returned] at member
      cases found with
      | none => exact absurd member List.not_mem_nil
      | some info =>
          have bound := short info.clusterId info.fileSize (finds_of_result returned)
          rcases List.mem_append.mp member with copied | filled
          · obtain ⟨lower, upper⟩ := fatxLoadFromDisk_within fuel extent copied
            exact ⟨lower, Nat.le_trans upper (Nat.add_le_add_left bound position)⟩
          · rw [List.mem_singleton.mp filled]
            exact ⟨Nat.le_refl position, Nat.add_le_add_left bound position⟩

end Cromwell.Fatx
