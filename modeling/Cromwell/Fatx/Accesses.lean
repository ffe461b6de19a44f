import Cromwell.Fatx.Termination

/-!
# Where lookups and loads reach

The map entries and sectors used on the way to a file are determined by the cluster ids
met: the first cluster of every directory searched and of the file, and what the chain map
says after that. What an id makes a lookup or a load use lies inside the partition exactly if
the id is one of the partition. A sector number has 32 bits and a cluster 32 sectors, so that
ids which differ by a multiple of `2 ^ 27` lead to the same sectors.
-/

namespace Cromwell.Fatx

open Cromwell.Std

/-- The entry of a cluster lies in the loaded chain map. -/
def FATXPartition.IndexInside (partition : FATXPartition) (clusterId : Int32) : Prop :=
  0 ≤ clusterId.toInt ∧
    Extent.Within ⟨clusterId.toInt.toNat * partition.chainMapEntrySize.toNat,
        partition.chainMapEntrySize.toNat⟩
      ⟨0, (chainTableSize partition.clusterCount partition.chainMapEntrySize).toNat⟩

/-- A sector is one of the partition. -/
def FATXPartition.SectorInside (partition : FATXPartition) (block : UInt32) : Prop :=
  partition.partitionStart.toNat ≤ block.toNat ∧
    block.toNat < partition.partitionStart.toNat + partition.partitionSize.toNat / 512

/-- A use of the chain map or the drive stays inside the partition. -/
def Access.Inside (partition : FATXPartition) : Access → Prop
  | .chainMap clusterId => partition.IndexInside clusterId
  | .sector block => partition.SectorInside block

/-- What the search of a directory uses at a cluster. -/
def SearchUses (disk : Disk) (partition : FATXPartition) (seekFilename : List Byte)
    (lookForDirectory : Bool) (place : Int32 × Memory) (access : Access) : Prop :=
  (∃ k < partition.tried disk place.1,
      access = .sector (partition.clusterSector place.1 + UInt32.ofNat k)) ∨
    (scanCluster seekFilename lookForDirectory partition.clusterSize
        (partition.load disk place.1 place.2) = .next () ∧ access = .chainMap place.1)

/-- What the loading of a file uses at a cluster. -/
def LoadUses (disk : Disk) (partition : FATXPartition) (clusterId : Int32) (access : Access) :
    Prop :=
  (∃ k < partition.tried disk clusterId,
      access = .sector (partition.clusterSector clusterId + UInt32.ofNat k)) ∨
    access = .chainMap clusterId

/-- What the lookup of a path uses. -/
def PathUses (disk : Disk) (stack : List Byte → Memory) (partition : FATXPartition)
    (filename : List Byte) (clusterId : Int32) (access : Access) : Prop :=
  ∃ rest last, LeadsTo disk stack partition filename clusterId rest last ∧
    ∃ count place, searchAt disk stack partition rest last count = some place ∧
      SearchUses disk partition (seekFilename rest) (lookForDirectory rest) place access

/-- The lookup of a path comes to a file with a first cluster and a size. -/
def Finds (disk : Disk) (stack : List Byte → Memory) (partition : FATXPartition)
    (filename : List Byte) (clusterId entryClusterId : Int32) (fileSize : UInt32) : Prop :=
  ∃ rest last, LeadsTo disk stack partition filename clusterId rest last ∧
    SearchLeaves disk stack partition rest last (.found entryClusterId fileSize)

variable {disk : Disk} {ba : Memory} {stack : List Byte → Memory} {partition : FATXPartition}

/-! ## Clusters -/

theorem tried_pos (disk : Disk) (partition : FATXPartition) (clusterId : Int32) :
    0 < partition.tried disk clusterId := by
  rw [FATXPartition.tried, Fatx.tried]
  omega

/-! ## Ids of the partition -/

/-- The first sector of the cluster with a number, counted from the start of the partition. -/
def FATXPartition.firstSectorOf (partition : FATXPartition) (number : Int) : Int :=
  (partition.cluster1Address.toNat + (number - 1) * 0x4000) / 512

/-- The id, or one that leads to the same sectors, is that of a cluster of the partition: its
32 sectors, or those up to the first that cannot be read, are there. Or the partition has all
sectors there are. -/
def FATXPartition.HasCluster (partition : FATXPartition) (disk : Disk) (clusterId : Int32) :
    Prop :=
  (partition.partitionStart.toNat = 0 ∧ 2 ^ 32 ≤ partition.partitionSize.toNat / 512) ∨
    ∃ number : Int, number % 2 ^ 27 = clusterId.toInt % 2 ^ 27 ∧
      0 ≤ partition.firstSectorOf number ∧
      ∀ k < 32, (∀ j < k, disk partition.nDriveIndex (UInt32.ofNat
          (partition.partitionStart.toNat + (partition.firstSectorOf number).toNat + j)) ≠ none) →
        partition.partitionStart.toNat + (partition.firstSectorOf number).toNat + k <
          min (partition.partitionStart.toNat + partition.partitionSize.toNat / 512) (2 ^ 32)

/-- The chain map has an entry for the id. -/
def FATXPartition.HasEntry (partition : FATXPartition) (clusterId : Int32) : Prop :=
  0 ≤ clusterId.toInt ∧ (clusterId.toInt + 1) * partition.chainMapEntrySize.toNat ≤
    (chainTableSize partition.clusterCount partition.chainMapEntrySize).toNat

theorem hasEntry_iff {clusterId : Int32} :
    partition.HasEntry clusterId ↔ partition.IndexInside clusterId := by
  unfold FATXPartition.HasEntry FATXPartition.IndexInside Extent.Within
  refine and_congr_right fun positive => ?_
  obtain ⟨index, value⟩ := Int.eq_ofNat_of_zero_le positive
  rw [value, Int.toNat_natCast]
  generalize partition.chainMapEntrySize.toNat = size
  have entry : ((index : Int) + 1) * size = ((index * size + size : Nat) : Int) := by
    push_cast
    ring
  rw [entry, Int.ofNat_le]
  dsimp only
  omega

/-- The difference of a cluster id and one is taken modulo the number of ids. -/
theorem pred_clusterId (clusterId : Int32) :
    ∃ wraps : Int, ((clusterId - 1).toInt64.toUInt64.toNat : Int) =
      clusterId.toInt - 1 + 2 ^ 32 * wraps := by
  have narrow : (clusterId - 1).toInt = (clusterId.toInt - 1).bmod (2 ^ 32) :=
    Int32.toInt_sub clusterId 1
  have wide : (clusterId - 1).toInt64.toUInt64.toBitVec.toInt = (clusterId - 1).toInt :=
    Int32.toInt_toInt64 (clusterId - 1)
  rw [BitVec.toInt_eq_toNat_cond, narrow] at wide
  change (if 2 * (clusterId - 1).toInt64.toUInt64.toNat < 2 ^ 64 then
    ((clusterId - 1).toInt64.toUInt64.toNat : Int) else
    (clusterId - 1).toInt64.toUInt64.toNat - (2 ^ 64 : Nat)) = _ at wide
  have congruent := Int.bmod_add_bdiv (clusterId.toInt - 1) (2 ^ 32)
  split at wide
  · exact ⟨-(clusterId.toInt - 1).bdiv (2 ^ 32), by push_cast at *; omega⟩
  · exact ⟨2 ^ 32 - (clusterId.toInt - 1).bdiv (2 ^ 32), by push_cast at *; omega⟩

/-- The sector number of a cluster is exact modulo the number of sectors. -/
theorem clusterSector_congr (below : partition.partitionStart.toNat < 2 ^ 32)
    (clusterId : Int32) : ∃ wraps : Int, ((partition.clusterSector clusterId).toNat : Int) =
      partition.partitionStart.toNat +
        partition.firstSectorOf (clusterId.toInt + 2 ^ 27 * wraps) := by
  obtain ⟨more, pred⟩ := pred_clusterId clusterId
  have aligned := congrArg UInt64.toNat partition.cluster1Address_aligned
  rw [UInt64.toNat_mod] at aligned
  have sector : (partition.clusterSector clusterId).toNat = (partition.partitionStart.toNat +
      (partition.cluster1Address.toNat + (clusterId - 1).toInt64.toUInt64.toNat * 0x4000) % 2 ^ 64 /
        512) % 2 ^ 32 := by
    rw [FATXPartition.clusterSector, FATXPartition.clusterAddress, partition.clusterSize_eq,
      UInt32.toNat_add, UInt64.toNat_toUInt32, UInt64.toNat_toUInt32, UInt64.toNat_div,
      UInt64.toNat_add, UInt64.toNat_mul]
    change (_ + (_ + _ * 0x4000 % 2 ^ 64) % 2 ^ 64 / 512 % 2 ^ 32) % 2 ^ 32 = _
    omega
  change partition.cluster1Address.toNat % 512 = 0 at aligned
  generalize (clusterId - 1).toInt64.toUInt64.toNat = index at *
  generalize (partition.clusterSector clusterId).toNat = number at *
  have modulo : ∃ wraps : Int, (number : Int) = partition.partitionStart.toNat +
      (partition.cluster1Address.toNat / 512 : Nat) + 32 * (clusterId.toInt - 1) +
        2 ^ 32 * wraps := by
    refine ⟨((number : Int) - partition.partitionStart.toNat -
      (partition.cluster1Address.toNat / 512 : Nat) - 32 * (clusterId.toInt - 1)) / 2 ^ 32, ?_⟩
    omega
  obtain ⟨wraps, same⟩ := modulo
  refine ⟨wraps, ?_⟩
  unfold FATXPartition.firstSectorOf
  omega

/-- Where a cluster begins, as long as no sector number wraps. -/
theorem toNat_clusterSector {clusterId : Int32} (positive : 1 ≤ clusterId.toInt)
    (fits : partition.partitionStart.toNat +
      (partition.cluster1Address.toNat + (clusterId.toInt.toNat - 1) * 0x4000) / 512 < 2 ^ 32) :
    (partition.clusterSector clusterId).toNat = partition.partitionStart.toNat +
      (partition.cluster1Address.toNat + (clusterId.toInt.toNat - 1) * 0x4000) / 512 := by
  have below : partition.partitionStart.toNat < 2 ^ 32 := by omega
  have number := (partition.clusterSector clusterId).toNat_lt
  obtain ⟨wraps, same⟩ := clusterSector_congr below clusterId
  unfold FATXPartition.firstSectorOf at same
  omega

/-- The id is one of the partition exactly if every sector asked for is in the partition. -/
theorem hasCluster_iff {clusterId : Int32} : partition.HasCluster disk clusterId ↔
    ∀ k < partition.tried disk clusterId,
      partition.SectorInside (partition.clusterSector clusterId + UInt32.ofNat k) := by
  have some_sector := tried_pos disk partition clusterId
  have few : partition.tried disk clusterId ≤ 32 := tried_le 32 _
  have first := (partition.clusterSector clusterId).toNat_lt
  have asked : ∀ k, k < partition.tried disk clusterId ↔ k < 32 ∧ ∀ j < k,
      disk partition.nDriveIndex (partition.clusterSector clusterId + UInt32.ofNat j) ≠ none :=
    fun k => lt_tried_iff
  have number : ∀ k < partition.tried disk clusterId,
      (partition.clusterSector clusterId + UInt32.ofNat k).toNat =
        ((partition.clusterSector clusterId).toNat + k) % 2 ^ 32 :=
    fun k bound => toNat_add_ofNat _ (by omega)
  have counted : ∀ k, UInt32.ofNat ((partition.clusterSector clusterId).toNat + k) =
      partition.clusterSector clusterId + UInt32.ofNat k := fun k => by
    rw [UInt32.ofNat_add, UInt32.ofNat_toNat]
  unfold FATXPartition.HasCluster FATXPartition.SectorInside
  constructor
  · rintro (⟨zero, all⟩ | ⟨found, congruent, lower, sectors⟩) k bound
    · have block := (partition.clusterSector clusterId + UInt32.ofNat k).toNat_lt
      exact ⟨by omega, by omega⟩
    · have begins := sectors 0 (by omega) (fun j before => absurd before (Nat.not_lt_zero j))
      have below : partition.partitionStart.toNat < 2 ^ 32 := by omega
      obtain ⟨wraps, same⟩ := clusterSector_congr below clusterId
      have equal : (partition.clusterSector clusterId).toNat =
          partition.partitionStart.toNat + (partition.firstSectorOf found).toNat := by
        unfold FATXPartition.firstSectorOf at *
        omega
      have inside := sectors k (by omega) fun j before => by
        rw [← equal, counted]
        exact ((asked k).mp bound).2 j before
      rw [number k bound]
      exact ⟨by omega, by omega⟩
  · intro inside
    rcases Nat.lt_or_ge (2 ^ 32) ((partition.clusterSector clusterId).toNat +
        partition.tried disk clusterId) with around | fits
    · have highest := inside (2 ^ 32 - 1 - (partition.clusterSector clusterId).toNat) (by omega)
      have lowest := inside (2 ^ 32 - (partition.clusterSector clusterId).toNat) (by omega)
      rw [number _ (by omega)] at highest lowest
      exact .inl ⟨by omega, by omega⟩
    · have lowest := inside 0 some_sector
      have highest := inside (partition.tried disk clusterId - 1) (by omega)
      rw [number _ (by omega)] at highest lowest
      have below : partition.partitionStart.toNat < 2 ^ 32 := by omega
      obtain ⟨wraps, same⟩ := clusterSector_congr below clusterId
      have equal : (partition.clusterSector clusterId).toNat = partition.partitionStart.toNat +
          (partition.firstSectorOf (clusterId.toInt + 2 ^ 27 * wraps)).toNat := by
        omega
      refine .inr ⟨clusterId.toInt + 2 ^ 27 * wraps, by omega, by omega, fun k bound reads => ?_⟩
      have tried : k < partition.tried disk clusterId := (asked k).mpr ⟨bound, fun j before => by
        rw [← counted, equal]
        exact reads j before⟩
      omega

/-- The ids that count the clusters of a partition are ids of the partition. -/
theorem hasCluster_of_le {clusterId : Int32}
    (fits : partition.partitionStart.toNat + partition.partitionSize.toNat / 512 ≤ 2 ^ 32)
    (positive : 1 ≤ clusterId.toInt)
    (last : partition.cluster1Address.toNat + clusterId.toInt * 0x4000 ≤
      partition.partitionSize.toNat) :
    partition.HasCluster disk clusterId := by
  refine .inr ⟨clusterId.toInt, rfl, ?_, fun k bound _ => ?_⟩
  · unfold FATXPartition.firstSectorOf
    omega
  · unfold FATXPartition.firstSectorOf
    omega

/-- The chain map has an entry for every cluster there is room for. -/
theorem le_chainTableSize {clusterCount size : UInt32}
    (fits : clusterCount.toNat * size.toNat + 4096 < 2 ^ 32) :
    clusterCount.toNat * size.toNat ≤ (chainTableSize clusterCount size).toNat := by
  have product : (clusterCount * size).toNat = clusterCount.toNat * size.toNat := by
    rw [UInt32.toNat_mul, Nat.mod_eq_of_lt (by omega)]
  unfold chainTableSize
  dsimp only
  split
  · rw [UInt32.toNat_mul, UInt32.toNat_add, UInt32.toNat_div, product]
    change _ ≤ (_ / 4096 + 1) % 2 ^ 32 * 4096 % 2 ^ 32
    omega
  · exact Nat.le_of_eq product.symm

/-- The ids below the number of clusters have an entry. -/
theorem hasEntry_of_lt {clusterId : Int32}
    (fits : partition.clusterCount.toNat * partition.chainMapEntrySize.toNat + 4096 < 2 ^ 32)
    (positive : 0 ≤ clusterId.toInt) (below : clusterId.toInt < partition.clusterCount.toNat) :
    partition.HasEntry clusterId := by
  have room := le_chainTableSize fits
  have entries : (clusterId.toInt + 1) * partition.chainMapEntrySize.toNat ≤
      partition.clusterCount.toNat * partition.chainMapEntrySize.toNat :=
    Int.mul_le_mul_of_nonneg_right (by omega) (by omega)
  exact ⟨positive, le_trans entries (by exact_mod_cast room)⟩

/-! ## One directory and one file -/

theorem mem_loading {block : UInt32} {sectors : List UInt32} {accesses : List Access}
    {access : Access} {tried : Nat}
    (asked : ∀ block', block' ∈ sectors ↔ ∃ k < tried, block' = block + UInt32.ofNat k) :
    access ∈ sectors.map .sector ++ accesses ↔
      access ∈ accesses ∨ ∃ k < tried, access = .sector (block + UInt32.ofNat k) := by
  rw [List.mem_append, List.mem_map, or_comm]
  refine or_congr Iff.rfl ⟨?_, ?_⟩
  · rintro ⟨block', member, rfl⟩
    obtain ⟨k, bound, rfl⟩ := (asked block').mp member
    exact ⟨k, bound, rfl⟩
  · rintro ⟨k, bound, rfl⟩
    exact ⟨_, (asked _).mpr ⟨k, bound, rfl⟩, rfl⟩

/-- The search of a directory records what it uses. -/
theorem searchPass_records (ba : Memory) (seek : List Byte) (directory : Bool) :
    Records Search.place (SearchUses disk partition seek directory)
      (fun search access => access ∈ search.accesses)
      (fun left access => access ∈ left.2.accesses)
      (searchPass disk ba partition seek directory) := by
  have place : ∀ {search : Search}, search.clusterId ≠ -1 →
      search.place = some (search.clusterId, search.clusterData) :=
    fun more => Search.place_eq_some.mpr ⟨more, rfl⟩
  have loading : ∀ (search : Search) (access : Access),
      access ∈ search.loading disk ba partition ↔ access ∈ search.accesses ∨
        ∃ k < partition.tried disk search.clusterId,
          access = .sector (partition.clusterSector search.clusterId + UInt32.ofNat k) :=
    fun search access => mem_loading (loadFATXCluster_spec disk ba partition _ _).2.2
  constructor
  · intro search next access pass
    by_cases atEnd : search.clusterId = -1
    · rw [searchPass_over atEnd] at pass
      cases pass
    · cases scanned : scanCluster seek directory partition.clusterSize
          (partition.load disk search.clusterId search.clusterData) with
      | leave result =>
          rw [searchPass_leave atEnd scanned] at pass
          cases pass
      | next _ =>
          rw [searchPass_next atEnd scanned] at pass
          cases pass
          simp [place atEnd, SearchUses, scanned, loading, or_comm, or_left_comm]
  · intro search result access pass
    by_cases atEnd : search.clusterId = -1
    · rw [searchPass_over atEnd] at pass
      cases pass
      simp [Search.place, atEnd]
    · cases scanned : scanCluster seek directory partition.clusterSize
          (partition.load disk search.clusterId search.clusterData) with
      | leave found =>
          rw [searchPass_leave atEnd scanned] at pass
          cases pass
          simp [place atEnd, SearchUses, scanned, loading]
      | next _ =>
          rw [searchPass_next atEnd scanned] at pass
          cases pass

/-- The loading of a file records what it uses. -/
theorem loadPass_records (disk : Disk) (ba : Memory) (partition : FATXPartition) :
    Records FileLoad.place (LoadUses disk partition)
      (fun load access => access ∈ load.accesses) (fun load access => access ∈ load.accesses)
      (loadPass disk ba partition) := by
  have loading : ∀ (load : FileLoad) (access : Access),
      access ∈ load.loading disk ba partition ↔ access ∈ load.accesses ∨
        ∃ k < partition.tried disk load.clusterId,
          access = .sector (partition.clusterSector load.clusterId + UInt32.ofNat k) :=
    fun load access => mem_loading (loadFATXCluster_spec disk ba partition _ _).2.2
  constructor
  · intro load next access pass
    unfold loadPass at pass
    split at pass
    · cases pass
    · next more =>
      cases pass
      simp [FileLoad.place, enter, more, LoadUses, loading, or_comm, or_left_comm]
  · intro load result access pass
    unfold loadPass at pass
    split at pass
    · next atEnd =>
      cases pass
      simp [FileLoad.place, atEnd]
    · cases pass

theorem mem_searchLoop {filename : List Byte} {clusterId : Int32} {accesses : List Access}
    (fuel : Nat) (access : Access) :
    recorded (fun search access => access ∈ search.accesses)
        (fun left access => access ∈ left.2.accesses)
        (searchLoop disk ba stack partition filename clusterId accesses fuel) access ↔
      access ∈ accesses ∨ ∃ count < fuel, ∃ place,
        searchAt disk stack partition filename clusterId count = some place ∧
          SearchUses disk partition (seekFilename filename) (lookForDirectory filename) place
            access :=
  (searchPass_follows ba).mem_recorded_iff (searchPass_records ba _ _) fuel _ access

theorem mem_fatxLoadFromDisk {loadStack memory : Memory} {fileinfo : FATXFileInfo}
    {buffer : Nat} {accesses : List Access} (fuel : Nat) (access : Access) :
    access ∈ (fatxLoadFromDisk disk ba loadStack partition fuel fileinfo buffer memory
        accesses).accesses ↔
      access ∈ accesses ∨ ∃ count < fuel, ∃ clusterId,
        partition.clusterAt fileinfo.clusterId count = some clusterId ∧
          LoadUses disk partition clusterId access := by
  have record := loadPass_follows.mem_recorded_iff (loadPass_records disk ba partition) fuel
    (fileinfo.start loadStack buffer memory accesses) access
  rw [fatxLoadFromDisk]
  cases run : whileLoop (loadPass disk ba partition) fuel
      (fileinfo.start loadStack buffer memory accesses) with
  | next load =>
      rw [run] at record
      exact record
  | leave load =>
      rw [run] at record
      exact record

/-! ## Paths -/

section Paths

variable {filename : List Byte} {clusterId : Int32} {fileinfo : FATXFileInfo}
  {accesses : List Access} {access : Access}

theorem pathUses_descend (fits : (seekFilename filename).length ≤ fatxFilenameMax)
    {entryClusterId : Int32}
    (leaves : SearchLeaves disk stack partition filename clusterId (.descend entryClusterId))
    (uses : PathUses disk stack partition (afterSlash filename) entryClusterId access) :
    PathUses disk stack partition filename clusterId access := by
  obtain ⟨rest, last, leads, used⟩ := uses
  exact ⟨rest, last, .descend fits leaves leads, used⟩

/-- A lookup uses nothing but what its path leads to. -/
theorem pathUses_of_mem {fuel : Nat} (member : access ∈ (_fatxFindFile disk ba stack partition
      fuel filename clusterId fileinfo accesses).accesses) :
    access ∈ accesses ∨ PathUses disk stack partition filename clusterId access := by
  induction fuel generalizing filename clusterId accesses with
  | zero => exact .inl member
  | succ fuel ih =>
      rw [_fatxFindFile] at member
      by_cases long : fatxFilenameMax < (seekFilename filename).length
      · rw [if_pos long] at member
        exact .inl member
      have fits := Nat.le_of_not_lt long
      rw [if_neg long] at member
      have here : recorded (fun search access => access ∈ search.accesses)
            (fun left access => access ∈ left.2.accesses)
            (searchLoop disk ba stack partition filename clusterId accesses (fuel + 1)) access →
          access ∈ accesses ∨ PathUses disk stack partition filename clusterId access := by
        intro used
        rcases (mem_searchLoop (fuel + 1) access).mp used with before | ⟨count, -, uses⟩
        · exact .inl before
        · exact .inr ⟨filename, clusterId, .here fits, count, uses⟩
      cases run : searchLoop disk ba stack partition filename clusterId accesses (fuel + 1) with
      | next search =>
          rw [run] at member here
          exact here member
      | leave left =>
          obtain ⟨ending, search⟩ := left
          rw [run] at member here
          cases ending with
          | notFound => exact here member
          | found entryClusterId fileSize => exact here member
          | descend entryClusterId =>
              rcases ih member with before | further
              · exact here before
              · have leaves := (searchLoop_leave run).resolve_left (by simp)
                exact .inr (pathUses_descend fits leaves further)

/-- What the search of the first directory has recorded stays recorded. -/
theorem mem_of_recorded {fuel : Nat} (fits : (seekFilename filename).length ≤ fatxFilenameMax)
    (kept : ∀ {filename : List Byte} {clusterId : Int32} {accesses : List Access},
      access ∈ accesses → access ∈ (_fatxFindFile disk ba stack partition fuel filename clusterId
        fileinfo accesses).accesses)
    (used : recorded (fun search access => access ∈ search.accesses)
      (fun left access => access ∈ left.2.accesses)
      (searchLoop disk ba stack partition filename clusterId accesses (fuel + 1)) access) :
    access ∈ (_fatxFindFile disk ba stack partition (fuel + 1) filename clusterId fileinfo
      accesses).accesses := by
  rw [_fatxFindFile, if_neg (Nat.not_lt.mpr fits)]
  cases run : searchLoop disk ba stack partition filename clusterId accesses (fuel + 1) with
  | next search =>
      rw [run] at used
      exact used
  | leave left =>
      obtain ⟨ending, search⟩ := left
      rw [run] at used
      cases ending with
      | notFound => exact used
      | found entryClusterId fileSize => exact used
      | descend entryClusterId => exact kept used

/-- What was used before stays recorded. -/
theorem mem_of_mem_accesses (fuel : Nat) (member : access ∈ accesses) :
    access ∈ (_fatxFindFile disk ba stack partition fuel filename clusterId fileinfo
      accesses).accesses := by
  induction fuel generalizing filename clusterId accesses with
  | zero => exact member
  | succ fuel ih =>
      by_cases long : fatxFilenameMax < (seekFilename filename).length
      · rw [_fatxFindFile, if_pos long]
        exact member
      · exact mem_of_recorded (Nat.le_of_not_lt long) ih
          ((mem_searchLoop (fuel + 1) access).mpr (.inl member))

/-- More fuel does not take anything back. -/
theorem mem_fuel_add {fuel : Nat} (more : Nat) (member : access ∈ (_fatxFindFile disk ba stack
      partition fuel filename clusterId fileinfo accesses).accesses) :
    access ∈ (_fatxFindFile disk ba stack partition (fuel + more) filename clusterId fileinfo
      accesses).accesses := by
  induction fuel generalizing filename clusterId accesses with
  | zero => exact mem_of_mem_accesses _ member
  | succ fuel ih =>
      by_cases long : fatxFilenameMax < (seekFilename filename).length
      · rw [Nat.add_right_comm, _fatxFindFile, if_pos long]
        rw [_fatxFindFile, if_pos long] at member
        exact member
      rw [_fatxFindFile, if_neg long] at member
      rw [Nat.add_right_comm]
      have longer : ∀ {search : SearchResult × Search},
          searchLoop disk ba stack partition filename clusterId accesses (fuel + 1) =
            .leave search →
          searchLoop disk ba stack partition filename clusterId accesses (fuel + more + 1) =
            .leave search := by
        intro search run
        rw [Nat.add_right_comm]
        exact searchLoop_leave_add run more
      cases run : searchLoop disk ba stack partition filename clusterId accesses (fuel + 1) with
      | next search =>
          have used : recorded (fun search access => access ∈ search.accesses)
              (fun left access => access ∈ left.2.accesses)
              (searchLoop disk ba stack partition filename clusterId accesses (fuel + 1))
              access := by
            rw [run] at member ⊢
            exact member
          have used := (mem_searchLoop (fuel + 1) access).mp used
          refine mem_of_recorded (Nat.le_of_not_lt long) (mem_of_mem_accesses _)
            ((mem_searchLoop (fuel + more + 1) access).mpr ?_)
          rcases used with before | ⟨count, bound, uses⟩
          · exact .inl before
          · exact .inr ⟨count, by omega, uses⟩
      | leave left =>
          obtain ⟨ending, search⟩ := left
          rw [run] at member
          rw [_fatxFindFile, if_neg long, longer run]
          cases ending with
          | notFound => exact member
          | found entryClusterId fileSize => exact member
          | descend entryClusterId => exact ih member

/-- Whatever a path leads to is used, given enough fuel. -/
theorem mem_of_pathUses (fileinfo : FATXFileInfo) (ba : Memory) (accesses : List Access)
    (uses : PathUses disk stack partition filename clusterId access) :
    ∃ fuel, access ∈ (_fatxFindFile disk ba stack partition fuel filename clusterId fileinfo
      accesses).accesses := by
  obtain ⟨rest, last, leads, count, place, reached, used⟩ := uses
  induction leads generalizing accesses with
  | here fits =>
      exact ⟨count + 1, mem_of_recorded fits (mem_of_mem_accesses _)
        ((mem_searchLoop (count + 1) access).mpr
          (.inr ⟨count, Nat.lt_succ_self count, place, reached, used⟩))⟩
  | descend fits leaves onwards ih =>
      obtain ⟨passes, search, run⟩ := leaves.searchLoop ba accesses
      obtain ⟨fuel, member⟩ := ih search.accesses reached used
      refine ⟨fuel + passes + 1, ?_⟩
      have enough : fuel + passes + 1 = passes + (fuel + 1) := by omega
      rw [_fatxFindFile, if_neg (Nat.not_lt.mpr fits), enough, searchLoop_leave_add run (fuel + 1)]
      exact mem_fuel_add passes member

/-- A file that is returned is one the path leads to. -/
theorem finds_of_result {fuel : Nat} {info : FATXFileInfo}
    (returned : (_fatxFindFile disk ba stack partition fuel filename clusterId fileinfo
      accesses).result = some (some info)) :
    Finds disk stack partition filename clusterId info.clusterId info.fileSize := by
  induction fuel generalizing filename clusterId accesses with
  | zero => cases returned
  | succ fuel ih =>
      rw [_fatxFindFile] at returned
      by_cases long : fatxFilenameMax < (seekFilename filename).length
      · rw [if_pos long] at returned
        cases returned
      have fits := Nat.le_of_not_lt long
      rw [if_neg long] at returned
      cases run : searchLoop disk ba stack partition filename clusterId accesses (fuel + 1) with
      | next search =>
          rw [run] at returned
          cases returned
      | leave left =>
          obtain ⟨ending, search⟩ := left
          rw [run] at returned
          cases ending with
          | notFound => cases returned
          | found entryClusterId fileSize =>
              cases returned
              exact ⟨filename, clusterId, .here fits, (searchLoop_leave run).resolve_left (by simp)⟩
          | descend entryClusterId =>
              obtain ⟨rest, last, leads, found⟩ := ih returned
              exact ⟨rest, last,
                .descend fits ((searchLoop_leave run).resolve_left (by simp)) leads, found⟩

/-- A file a path leads to is returned, given enough fuel. -/
theorem result_of_finds {entryClusterId : Int32} {fileSize : UInt32} (fileinfo : FATXFileInfo)
    (ba : Memory) (accesses : List Access)
    (finds : Finds disk stack partition filename clusterId entryClusterId fileSize) :
    ∃ fuel info, (_fatxFindFile disk ba stack partition fuel filename clusterId fileinfo
      accesses).result = some (some info) ∧ info.clusterId = entryClusterId ∧
        info.fileSize = fileSize := by
  obtain ⟨rest, last, leads, found⟩ := finds
  induction leads generalizing accesses with
  | @here filename clusterId fits =>
      obtain ⟨passes, search, run⟩ := found.searchLoop ba accesses
      refine ⟨passes + 1, { fileinfo with clusterId := entryClusterId, fileSize, filename }, ?_,
        rfl, rfl⟩
      rw [_fatxFindFile, if_neg (Nat.not_lt.mpr fits), searchLoop_leave_add run 1]
  | descend fits leaves onwards ih =>
      obtain ⟨passes, search, run⟩ := leaves.searchLoop ba accesses
      obtain ⟨fuel, info, returned, same⟩ := ih search.accesses found
      refine ⟨fuel + passes + 1, info, ?_, same⟩
      have enough : fuel + passes + 1 = passes + (fuel + 1) := by omega
      rw [_fatxFindFile, if_neg (Nat.not_lt.mpr fits), enough, searchLoop_leave_add run (fuel + 1)]
      exact findFile_fuel_add returned passes

end Paths

/-! ## Whole loads -/

section Loads

variable {loadStack memory : Memory} {value : Byte} {buffer : UInt32 → Nat}
  {filename : List Byte} {fileinfo : FATXFileInfo} {access : Access}

/-- Loading a file by its name uses what the lookup leads to and, if that comes to a file,
what its chain leads to. -/
theorem mem_loadByName : (∃ fuel, access ∈ (loadByName disk ba stack loadStack value buffer
      (some partition) fuel filename fileinfo memory).accesses) ↔
    PathUses disk stack partition (normalized filename) fatxRootFatCluster access ∨
      ∃ entryClusterId fileSize,
        Finds disk stack partition (normalized filename) fatxRootFatCluster entryClusterId
            fileSize ∧
          ∃ count clusterId, partition.clusterAt entryClusterId count = some clusterId ∧
            LoadUses disk partition clusterId access := by
  constructor
  · rintro ⟨fuel, member⟩
    have looked : access ∈ (fatxFindFile disk ba stack partition fuel filename
          fatxRootFatCluster fileinfo []).accesses →
        PathUses disk stack partition (normalized filename) fatxRootFatCluster access :=
      fun used => (pathUses_of_mem used).resolve_left List.not_mem_nil
    rw [loadByName] at member
    dsimp only at member
    cases returned : (fatxFindFile disk ba stack partition fuel filename fatxRootFatCluster
        fileinfo []).result with
    | none =>
        rw [returned] at member
        exact .inl (looked member)
    | some found =>
        rw [returned] at member
        cases found with
        | none => exact .inl (looked member)
        | some info =>
            rcases (mem_fatxLoadFromDisk fuel access).mp member with before | ⟨count, -, uses⟩
            · exact .inl (looked before)
            · exact .inr ⟨info.clusterId, info.fileSize, finds_of_result returned, count, uses⟩
  · rintro (uses | ⟨entryClusterId, fileSize, finds, count, clusterId, reached, uses⟩)
    · obtain ⟨fuel, member⟩ := mem_of_pathUses fileinfo ba [] uses
      refine ⟨fuel, ?_⟩
      rw [loadByName]
      dsimp only
      cases (fatxFindFile disk ba stack partition fuel filename fatxRootFatCluster fileinfo
          []).result with
      | none => exact member
      | some found =>
          cases found with
          | none => exact member
          | some info => exact (mem_fatxLoadFromDisk fuel access).mpr (.inl member)
    · obtain ⟨fuel, info, returned, rfl, -⟩ := result_of_finds fileinfo ba [] finds
      have returned : (fatxFindFile disk ba stack partition (fuel + (count + 1)) filename
          fatxRootFatCluster fileinfo []).result = some (some info) :=
        findFile_fuel_add returned (count + 1)
      refine ⟨fuel + (count + 1), ?_⟩
      rw [loadByName]
      dsimp only
      rw [returned]
      exact (mem_fatxLoadFromDisk _ access).mpr (.inr ⟨count, by omega, clusterId, reached, uses⟩)

end Loads

end Cromwell.Fatx
