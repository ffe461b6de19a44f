import Cromwell.Fatx.MetClusters

/-!
# Staying inside the partition

A lookup and a load stay inside the partition and its chain map exactly if every cluster id
they meet is one of the partition. The ids are not checked, so a stray one in a directory or
in the chain map leads anywhere on the drive.
-/

namespace Cromwell.Fatx

open Cromwell.Std

/-- In the search for the first name of what is left of the path, a cluster is loaded. -/
def FATXPartition.PathMeets (partition : FATXPartition) (disk : Disk)
    (stack : List Byte → Memory) (path : List Byte) (first : Int32) (rest : List Byte)
    (place : Int32 × Memory) : Prop :=
  ∃ last, partition.LooksUp disk stack path first rest last ∧
    partition.Comes disk (firstName rest) last (stack rest) place

/-- Every id the lookup of a path meets is one of the partition, and every id that is passed
over is one of the chain map. -/
structure PathInside (disk : Disk) (stack : List Byte → Memory) (partition : FATXPartition)
    (path : List Byte) (first : Int32) : Prop where
  cluster : ∀ rest place, partition.PathMeets disk stack path first rest place →
    partition.HasCluster disk place.1
  entry : ∀ rest place, partition.PathMeets disk stack path first rest place →
    (∀ i < 256, Skipped (firstName rest) (partition.load disk place.1 place.2) (i * 64)) →
      partition.HasEntry place.1

/-- Every id of a chain is one of the partition and of the chain map. -/
def ChainInside (disk : Disk) (partition : FATXPartition) (first : Int32) : Prop :=
  ∀ clusterId, partition.Chained first clusterId →
    partition.HasCluster disk clusterId ∧ partition.HasEntry clusterId

/-- The chain of every file the path leads to is inside. -/
def FileInside (disk : Disk) (stack : List Byte → Memory) (partition : FATXPartition)
    (path : List Byte) : Prop :=
  ∀ entry, partition.LeadsToFile disk stack path fatxRootFatCluster entry →
    ChainInside disk partition entry.clusterId

variable {disk : Disk} {ba : Memory} {stack : List Byte → Memory} {partition : FATXPartition}

/-- What a lookup uses is what the clusters it meets make it use. -/
theorem pathUses_iff {path : List Byte} {first : Int32} {access : Access} :
    PathUses disk stack partition path first access ↔
      ∃ rest place, partition.PathMeets disk stack path first rest place ∧
        SearchUses disk partition (firstName rest) (lookForDirectory rest) place access := by
  constructor
  · rintro ⟨rest, last, leads, count, place, reached, used⟩
    have comes := comes_iff.mp ⟨count, reached⟩
    rw [seekFilename_eq] at comes used
    exact ⟨rest, place, ⟨last, leadsTo_iff.mp leads, comes⟩, used⟩
  · rintro ⟨rest, place, ⟨last, looksUp, comes⟩, used⟩
    rw [← seekFilename_eq] at comes used
    obtain ⟨count, reached⟩ := comes_iff.mpr comes
    exact ⟨rest, last, leadsTo_iff.mpr looksUp, count, place, reached, used⟩

/-- A lookup stays inside exactly if the ids it meets are those of the partition. -/
theorem pathInside_iff {path : List Byte} {first : Int32} :
    (∀ access, PathUses disk stack partition path first access → access.Inside partition) ↔
      PathInside disk stack partition path first := by
  constructor
  · intro inside
    constructor
    · intro rest place meets
      refine hasCluster_iff.mpr fun k bound => ?_
      exact inside (.sector _) (pathUses_iff.mpr ⟨rest, place, meets, .inl ⟨k, bound, rfl⟩⟩)
    · intro rest place meets skipped
      have used : SearchUses disk partition (firstName rest) (lookForDirectory rest) place
          (.chainMap place.1) := .inr ⟨scanCluster_skipped_iff.mpr skipped, rfl⟩
      exact hasEntry_iff.mpr (inside (.chainMap _) (pathUses_iff.mpr ⟨rest, place, meets, used⟩))
  · intro inside access uses
    obtain ⟨rest, place, meets, used⟩ := pathUses_iff.mp uses
    rcases used with ⟨k, bound, rfl⟩ | ⟨passed, rfl⟩
    · exact hasCluster_iff.mp (inside.cluster rest place meets) k bound
    · exact hasEntry_iff.mp (inside.entry rest place meets (scanCluster_skipped_iff.mp passed))

/-- So does a load with the ids of its chain. -/
theorem chainInside_iff {first : Int32} :
    (∀ access count clusterId, partition.clusterAt first count = some clusterId →
      LoadUses disk partition clusterId access → access.Inside partition) ↔
      ChainInside disk partition first := by
  constructor
  · intro inside clusterId chained
    obtain ⟨count, reached⟩ := chained_iff.mpr chained
    refine ⟨hasCluster_iff.mpr fun k bound => ?_, hasEntry_iff.mpr ?_⟩
    · exact inside (.sector _) count clusterId reached (.inl ⟨k, bound, rfl⟩)
    · exact inside (.chainMap _) count clusterId reached (.inr rfl)
  · intro inside access count clusterId reached used
    obtain ⟨sectors, index⟩ := inside clusterId (chained_iff.mp ⟨count, reached⟩)
    rcases used with ⟨k, bound, rfl⟩ | rfl
    · exact hasCluster_iff.mp sectors k bound
    · exact hasEntry_iff.mp index

/-- Everything used on the way to a file and for loading it is inside the partition exactly
if every cluster id met is one of the partition. -/
theorem loadByName_inside_iff {loadStack memory : Memory} {value : Byte}
    {buffer : UInt32 → Nat} {filename : List Byte} {fileinfo : FATXFileInfo} :
    (∀ fuel, ∀ access ∈ (loadByName disk ba stack loadStack value buffer (some partition) fuel
      filename fileinfo memory).accesses, access.Inside partition) ↔
    PathInside disk stack partition (normalized filename) fatxRootFatCluster ∧
      FileInside disk stack partition (normalized filename) := by
  unfold FileInside
  rw [← pathInside_iff]
  simp only [← chainInside_iff]
  constructor
  · intro inside
    refine ⟨fun access uses => ?_, fun entry leads access count clusterId reached uses => ?_⟩
    · obtain ⟨fuel, member⟩ := mem_loadByName.mpr (.inl uses)
      exact inside fuel access member
    · have finds := finds_iff.mpr ⟨entry, leads, rfl, rfl⟩
      obtain ⟨fuel, member⟩ := mem_loadByName.mpr
        (.inr ⟨entry.clusterId, entry.fileSize, finds, count, clusterId, reached, uses⟩)
      exact inside fuel access member
  · rintro ⟨path, chain⟩ fuel access member
    rcases mem_loadByName.mp ⟨fuel, member⟩ with
      uses | ⟨entryClusterId, fileSize, finds, count, clusterId, reached, uses⟩
    · exact path access uses
    · obtain ⟨entry, leads, rfl, rfl⟩ := finds_iff.mp finds
      exact chain entry leads access count clusterId reached uses

/-- Lookups and loads stay inside the partition and its chain map exactly if every cluster id
they meet is one of the partition; those that count its clusters are. -/
theorem accesses_inside_iff (disk : Disk) (ba : Memory) (stack : List Byte → Memory)
    (loadStack : Memory) (partition : FATXPartition) (filename : List Byte)
    (fileinfo : FATXFileInfo) (memory : Memory) :
    ((∀ fuel, ∀ access ∈ (fatxFindFile disk ba stack partition fuel filename
        fatxRootFatCluster fileinfo []).accesses, access.Inside partition) ↔
      PathInside disk stack partition (normalized filename) fatxRootFatCluster) ∧
    (∀ malloc, (∀ fuel, ∀ access ∈ (loadFATXFile disk ba stack loadStack malloc (some partition)
        fuel filename fileinfo memory).accesses, access.Inside partition) ↔
      PathInside disk stack partition (normalized filename) fatxRootFatCluster ∧
        FileInside disk stack partition (normalized filename)) ∧
    (∀ position, (∀ fuel, ∀ access ∈ (loadFATXFilefixed disk ba stack loadStack position
        (some partition) fuel filename fileinfo memory).accesses, access.Inside partition) ↔
      PathInside disk stack partition (normalized filename) fatxRootFatCluster ∧
        FileInside disk stack partition (normalized filename)) ∧
    (partition.partitionStart.toNat + partition.partitionSize.toNat / 512 ≤ 2 ^ 32 →
      ∀ clusterId : Int32, 1 ≤ clusterId.toInt → partition.cluster1Address.toNat +
        clusterId.toInt * 0x4000 ≤ partition.partitionSize.toNat →
          partition.HasCluster disk clusterId) ∧
    (partition.clusterCount.toNat * partition.chainMapEntrySize.toNat + 4096 < 2 ^ 32 →
      ∀ clusterId : Int32, 0 ≤ clusterId.toInt → clusterId.toInt < partition.clusterCount.toNat →
        partition.HasEntry clusterId) := by
  refine ⟨?_, fun malloc => loadByName_inside_iff, fun position => loadByName_inside_iff,
    fun fits clusterId => hasCluster_of_le fits, fun fits clusterId => hasEntry_of_lt fits⟩
  rw [← pathInside_iff]
  constructor
  · intro inside access uses
    obtain ⟨fuel, member⟩ := mem_of_pathUses fileinfo ba [] uses
    exact inside fuel access member
  · intro inside fuel access member
    exact inside access ((pathUses_of_mem member).resolve_left List.not_mem_nil)

/-! ## A stray cluster id -/

/-- A drive of deleted directory entries, but for the header of the system partition. -/
def strayDisk : Disk := fun _ sector => some fun x =>
  if sector = sectorSystem then [0x46, 0x41, 0x54, 0x58].getD x 0 else 0xe5

/-- The system partition of that drive: every entry of its chain map is 0xe5e5. -/
def strayPartition : FATXPartition :=
  .layout 0 sectorSystem systemSize (fill strayDisk 0 128 (sectorSystem + 8) fun _ => 0)

/-- The root directory of the drive is one of deleted entries. -/
theorem strayPartition_load (clusterData : Memory) : ∀ x < 0x4000,
    strayPartition.load strayDisk fatxRootFatCluster clusterData x = 0xe5 := by
  intro x bound
  have every : Fatx.readable strayDisk strayPartition.nDriveIndex 32
      (strayPartition.clusterSector fatxRootFatCluster) = 32 :=
    readable_eq (fun _ => by simp [strayDisk]) 32 _
  have number : strayPartition.clusterSector fatxRootFatCluster = 0x465488 := by
    decide +kernel
  have other : (0x465488 : UInt32) + UInt32.ofNat (x / 512) ≠ sectorSystem := by
    intro same
    have numbers := congrArg UInt32.toNat same
    rw [toNat_add_ofNat _ (by omega)] at numbers
    change (0x465488 + x / 512) % 2 ^ 32 = 0x465400 at numbers
    omega
  rw [FATXPartition.load, fill, every, if_pos (by omega), number]
  simp [diskByte, strayDisk, other]

/-- The root directory of the drive leads to a cluster behind the partition. -/
theorem stray_access :
    (∃ opened, openFATXPartition strayDisk (fun _ => 0) (fun _ => true) (fun _ => 0) (fun _ => 0)
      0 sectorSystem systemSize = some opened ∧ opened.partition = some strayPartition) ∧
    ∃ fuel, ∃ access ∈ (fatxFindFile strayDisk (fun _ => 0) (fun _ _ => 0) strayPartition fuel
      [0x61] fatxRootFatCluster ⟨[], 0, 0, 0⟩ []).accesses,
        ¬access.Inside strayPartition := by
  have sound : ∀ sector, strayDisk 0 sector ≠ none := fun sector => by simp [strayDisk]
  constructor
  · exact open_of_sound (fun _ => 0) (fun _ => 0) (fun _ => 0) 0x10000 sound (by decide)
      (by decide) (by decide)
  · have entry : word strayPartition.clusterChainMap (fatxRootFatCluster.toUInt32 * 2).toNat =
        0xe5e5 := by
      decide +kernel
    have onwards := getNextClusterInChain_word (by decide) entry (by decide)
    have passed : scanCluster (seekFilename [0x61]) (lookForDirectory [0x61])
        strayPartition.clusterSize (strayPartition.load strayDisk fatxRootFatCluster
          fun _ => 0) = .next () :=
      scanCluster_deleted (strayPartition_load _)
    have root : searchAt strayDisk (fun _ _ => 0) strayPartition [0x61] fatxRootFatCluster 0 =
        some (fatxRootFatCluster, fun _ => 0) := by
      rw [searchAt, walk, enter_eq_some.mpr ⟨by decide, rfl⟩, Option.map_some]
    have stray : searchAt strayDisk (fun _ _ => 0) strayPartition [0x61] fatxRootFatCluster
        (0 + 1) = some (0xe5e5, strayPartition.load strayDisk fatxRootFatCluster fun _ => 0) := by
      have next : chainStep strayPartition fatxRootFatCluster = some 0xe5e5 := by
        rw [chainStep, onwards]
        decide
      rw [searchAt_succ, root, Option.bind_some]
      exact searchStep_eq_some.mpr ⟨passed, next, rfl⟩
    have uses : PathUses strayDisk (fun _ _ => 0) strayPartition [0x61] fatxRootFatCluster
        (.sector (strayPartition.clusterSector 0xe5e5 + UInt32.ofNat 0)) :=
      ⟨[0x61], fatxRootFatCluster, .here (by decide), 0 + 1, _, stray,
        .inl ⟨0, tried_pos _ _ _, rfl⟩⟩
    obtain ⟨fuel, member⟩ := mem_of_pathUses ⟨[], 0, 0, 0⟩ (fun _ => 0) [] uses
    refine ⟨fuel, _, member, fun inside => ?_⟩
    have number : (strayPartition.clusterSector 0xe5e5 + UInt32.ofNat 0).toNat = 6492424 := by
      decide +kernel
    have upper := inside.2
    rw [number] at upper
    change 6492424 < 0x465400 + 0x1f400000 / 512 at upper
    omega

end Cromwell.Fatx
