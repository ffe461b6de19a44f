import Cromwell.Fatx.RawRead

/-!
# FATX partitions

A partition is opened by reading its header and its cluster chain map. The map entry
of a cluster names the next cluster of its chain; reserved values end the chain, and
every other value is handed on with at most a message. Cluster ids are signed. They
select a map entry, and the bytes of a cluster, by address arithmetic alone.
-/

namespace Cromwell.Fatx

open Cromwell.Std

def fatxPartitionHeadersize : Int := 0x1000
def fatxPartitionMagic : Nat := 0x58544146
def fatxChaintableBlocksize : UInt32 := 4096
def fatxRootFatCluster : Int32 := 1
def systemSize : UInt64 := 0x1f400000
def sectorSystem : UInt32 := 0x465400

/-- An opened partition. The chain map is what lies at an offset from the start of the
loaded table, modulo the size of the address space: the table itself and, behind and
before it, whatever else is in memory. -/
structure FATXPartition where
  nDriveIndex : Int32
  partitionStart : UInt64
  partitionSize : UInt64
  clusterSize : UInt32
  clusterCount : UInt32
  chainMapEntrySize : UInt32
  clusterChainMap : Memory
  cluster1Address : UInt64
  clusterSize_eq : clusterSize = 0x4000
  cluster1Address_aligned : cluster1Address % 512 = 0

/-- The size of the chain map for so many clusters, in whole blocks. -/
def chainTableSize (clusterCount chainMapEntrySize : UInt32) : UInt32 :=
  let size := clusterCount * chainMapEntrySize
  if size % fatxChaintableBlocksize ≠ 0 then
    (size / fatxChaintableBlocksize + 1) * fatxChaintableBlocksize
  else size

theorem chainTableSize_dvd (clusterCount chainMapEntrySize : UInt32) :
    (chainTableSize clusterCount chainMapEntrySize).toNat % 4096 = 0 := by
  unfold chainTableSize
  dsimp only
  split
  · rw [UInt32.toNat_mul]
    change (_ * 4096) % 2 ^ 32 % 4096 = 0
    omega
  · next whole =>
    have zero := congrArg UInt32.toNat (not_not.mp whole)
    exact zero

/-- Behind the header and the chain map a new sector begins. -/
theorem cluster1Address_dvd (clusterCount chainMapEntrySize : UInt32) :
    (0x1000 + chainTableSize clusterCount chainMapEntrySize).toUInt64 % 512 = 0 := by
  have whole := chainTableSize_dvd clusterCount chainMapEntrySize
  apply UInt64.toNat_inj.mp
  rw [UInt64.toNat_mod, UInt32.toNat_toUInt64, UInt32.toNat_add]
  change (4096 + (chainTableSize clusterCount chainMapEntrySize).toNat) % 2 ^ 32 % 512 = 0
  omega

/-- Large partitions have 32-bit entries. -/
def entrySize (clusterCount : UInt32) : UInt32 := if clusterCount ≥ 0xfff4 then 4 else 2

/-- The structure set up for a partition of some size. -/
def FATXPartition.layout (nDriveIndex : Int32) (partitionOffset : UInt32)
    (partitionSize : UInt64) (clusterChainMap : Memory) : FATXPartition :=
  let clusterCount := (partitionSize / 0x4000).toUInt32
  { nDriveIndex
    partitionStart := partitionOffset.toUInt64
    partitionSize
    clusterSize := 0x4000
    clusterCount
    chainMapEntrySize := entrySize clusterCount
    clusterChainMap
    cluster1Address := (0x1000 + chainTableSize clusterCount (entrySize clusterCount)).toUInt64
    clusterSize_eq := rfl
    cluster1Address_aligned := cluster1Address_dvd clusterCount (entrySize clusterCount) }

/-- What opening a partition has done: the partition if there is one, the sectors asked
for, and the sizes of the blocks allocated and still held. -/
structure Opened where
  partition : Option FATXPartition
  sectors : List UInt32
  allocated : List UInt32

/-- `malloc` says which requests are met; `partitionInfo` and `chainTable` are what the
two buffers, and the memory around the table, hold before. The call has no outcome if
the table is so large that its size counts as negative. -/
def openFATXPartition (disk : Disk) (ba : Memory) (malloc : UInt32 → Bool)
    (partitionInfo chainTable : Memory) (nDriveIndex : Int32) (partitionOffset : UInt32)
    (partitionSize : UInt64) : Option Opened :=
  let header := fatxRawRead disk ba nDriveIndex partitionOffset 0 0x1000 partitionInfo
  if header.value ≠ some fatxPartitionHeadersize then
    some ⟨none, header.sectors, []⟩
  else if header.buffer.dword 0 ≠ fatxPartitionMagic then
    some ⟨none, header.sectors, []⟩
  else if malloc 44 = false then
    some ⟨none, header.sectors, []⟩
  else
    let clusterCount := (partitionSize / 0x4000).toUInt32
    let tableSize := chainTableSize clusterCount (entrySize clusterCount)
    if malloc tableSize = false then
      some ⟨none, header.sectors, [44]⟩
    else
      let table := fatxRawRead disk ba nDriveIndex partitionOffset 0x1000
        tableSize.toInt32 chainTable
      -- A table that was not read in full is only reported.
      table.value.map fun _ =>
        { partition := some
            (FATXPartition.layout nDriveIndex partitionOffset partitionSize table.buffer)
          sectors := table.sectors ++ header.sectors
          allocated := [tableSize, 44] }

/-- The 16-bit word at an offset. -/
def word (memory : Memory) (offset : Nat) : UInt32 :=
  UInt32.ofNat ((memory offset).toNat + (memory (offset + 1)).toNat * 0x100)

/-- The chain map entry of a cluster. -/
def FATXPartition.entry (partition : FATXPartition) (clusterId : Int32) : UInt32 :=
  if partition.chainMapEntrySize = 2 then
    word partition.clusterChainMap (clusterId.toUInt32 * 2).toNat
  else if partition.chainMapEntrySize = 4 then
    UInt32.ofNat (partition.clusterChainMap.dword (clusterId.toUInt32 * 4).toNat)
  else 0

def getNextClusterInChain (partition : FATXPartition) (clusterId : Int32) : Int32 :=
  let nextClusterId := partition.entry clusterId
  let eocMarker := if partition.chainMapEntrySize = 2 then 0xffff
    else if partition.chainMapEntrySize = 4 then 0xffffffff else 0
  let rootFatMarker := if partition.chainMapEntrySize = 2 then 0xfff8
    else if partition.chainMapEntrySize = 4 then 0xfffffff8 else 0
  -- Invalid clusters, unallocated ones and values above the maximum only print a message.
  if nextClusterId = eocMarker ∨ nextClusterId = rootFatMarker then -1
  else nextClusterId.toInt32

/-- With a map of 16-bit entries the next cluster is the entry as it is. -/
theorem getNextClusterInChain_word {partition : FATXPartition}
    (narrow : partition.chainMapEntrySize = 2) {clusterId : Int32} {next : UInt32}
    (entry : word partition.clusterChainMap (clusterId.toUInt32 * 2).toNat = next)
    (reserved : next ≠ 0xffff ∧ next ≠ 0xfff8) :
    getNextClusterInChain partition clusterId = next.toInt32 := by
  rw [getNextClusterInChain, FATXPartition.entry, if_pos narrow, entry]
  simp [narrow, reserved]

/-- The address of a cluster, counted from the start of the partition. -/
def FATXPartition.clusterAddress (partition : FATXPartition) (clusterId : Int32) : UInt64 :=
  partition.cluster1Address +
    (clusterId - 1).toInt64.toUInt64 * partition.clusterSize.toUInt64

/-- A short read is only reported, so all that counts is what is in the buffer then. -/
def loadFATXCluster (disk : Disk) (ba : Memory) (partition : FATXPartition) (clusterId : Int32)
    (clusterData : Memory) : ReadResult :=
  fatxRawRead disk ba partition.nDriveIndex partition.partitionStart.toUInt32
    (partition.clusterAddress clusterId) partition.clusterSize.toInt32 clusterData

/-! ## Clusters as sectors -/

/-- The first sector of a cluster. -/
def FATXPartition.clusterSector (partition : FATXPartition) (clusterId : Int32) : UInt32 :=
  partition.partitionStart.toUInt32 + (partition.clusterAddress clusterId / 512).toUInt32

/-- How many of the sectors of a cluster can be read before the first that cannot. -/
def FATXPartition.readable (partition : FATXPartition) (disk : Disk) (clusterId : Int32) : Nat :=
  Fatx.readable disk partition.nDriveIndex 32 (partition.clusterSector clusterId)

/-- How many of the sectors of a cluster are asked for. -/
def FATXPartition.tried (partition : FATXPartition) (disk : Disk) (clusterId : Int32) : Nat :=
  Fatx.tried disk partition.nDriveIndex 32 (partition.clusterSector clusterId)

/-- The buffer after a cluster is loaded into it. -/
def FATXPartition.load (partition : FATXPartition) (disk : Disk) (clusterId : Int32)
    (clusterData : Memory) : Memory :=
  fill disk partition.nDriveIndex 32 (partition.clusterSector clusterId) clusterData

theorem FATXPartition.clusterAddress_aligned (partition : FATXPartition) (clusterId : Int32) :
    partition.clusterAddress clusterId % 512 = 0 := by
  have aligned := congrArg UInt64.toNat partition.cluster1Address_aligned
  rw [UInt64.toNat_mod] at aligned
  apply UInt64.toNat_inj.mp
  rw [FATXPartition.clusterAddress, partition.clusterSize_eq, UInt64.toNat_mod, UInt64.toNat_add,
    UInt64.toNat_mul]
  generalize (clusterId - 1).toInt64.toUInt64.toNat = index
  change partition.cluster1Address.toNat % 512 = 0 at aligned
  change (partition.cluster1Address.toNat + index * 0x4000 % 2 ^ 64) % 2 ^ 64 % 512 = 0
  omega

/-- Loading a cluster always returns; it stores the sectors of the cluster up to the first
that cannot be read, and asks for no others. -/
theorem loadFATXCluster_spec (disk : Disk) (ba : Memory) (partition : FATXPartition)
    (clusterId : Int32) (clusterData : Memory) :
    (loadFATXCluster disk ba partition clusterId clusterData).value.isSome ∧
    (loadFATXCluster disk ba partition clusterId clusterData).buffer =
        partition.load disk clusterId clusterData ∧
      ∀ block, block ∈ (loadFATXCluster disk ba partition clusterId clusterData).sectors ↔
        ∃ k < partition.tried disk clusterId,
          block = partition.clusterSector clusterId + UInt32.ofNat k := by
  have length : partition.clusterSize.toInt32.toInt = 512 * ((32 : Nat) : Int) := by
    rw [partition.clusterSize_eq]
    rfl
  obtain ⟨value, stored, sectors⟩ :=
    fatxRawRead_sectors disk ba partition.nDriveIndex partition.partitionStart.toUInt32
      clusterData (partition.clusterAddress_aligned clusterId) length
  refine ⟨?_, stored, sectors⟩
  rw [loadFATXCluster, value]
  rfl

/-! ## Opened partitions -/

section Open

variable {disk : Disk} {ba : Memory} {malloc : UInt32 → Bool} {partitionInfo chainTable : Memory}
  {nDriveIndex : Int32} {partitionOffset : UInt32} {partitionSize : UInt64}

/-- An opened partition has the layout of its size, and its chain map as many bytes as its
clusters need. -/
theorem layout_of_open {opened : Opened} {partition : FATXPartition}
    (opens : openFATXPartition disk ba malloc partitionInfo chainTable nDriveIndex
      partitionOffset partitionSize = some opened) (isOpen : opened.partition = some partition) :
    (∃ chainMap, partition =
        FATXPartition.layout nDriveIndex partitionOffset partitionSize chainMap) ∧
      chainTableSize partition.clusterCount partition.chainMapEntrySize ∈ opened.allocated := by
  unfold openFATXPartition at opens
  dsimp only at opens
  split at opens
  · cases opens
    cases isOpen
  · split at opens
    · cases opens
      cases isOpen
    · split at opens
      · cases opens
        cases isOpen
      · split at opens
        · cases opens
          cases isOpen
        · obtain ⟨value, -, rfl⟩ := Option.map_eq_some_iff.mp opens
          cases isOpen
          exact ⟨⟨_, rfl⟩, List.mem_cons_self⟩

/-- A partition with the magic number, on a drive without errors, is opened. -/
theorem open_of_sound (ba partitionInfo chainTable : Memory) (tableSize : UInt32)
    (sound : ∀ sector, disk nDriveIndex sector ≠ none)
    (magic : (fill disk nDriveIndex 8 partitionOffset partitionInfo).dword 0 =
      fatxPartitionMagic)
    (size : chainTableSize (partitionSize / 0x4000).toUInt32
      (entrySize (partitionSize / 0x4000).toUInt32) = tableSize)
    (small : tableSize.toInt32.toInt = tableSize.toNat) :
    ∃ opened, openFATXPartition disk ba (fun _ => true) partitionInfo chainTable nDriveIndex
        partitionOffset partitionSize = some opened ∧
      opened.partition = some (FATXPartition.layout nDriveIndex partitionOffset partitionSize
        (fill disk nDriveIndex (tableSize.toNat / 512) (partitionOffset + 8) chainTable)) := by
  have whole : tableSize.toNat % 4096 = 0 := size ▸ chainTableSize_dvd _ _
  have length : tableSize.toInt32.toInt = 512 * ((tableSize.toNat / 512 : Nat) : Int) := by
    omega
  have start : (0 : UInt64) % 512 = 0 := rfl
  have behind : (0x1000 : UInt64) % 512 = 0 := rfl
  have eight : (0x1000 : Int32).toInt = 512 * ((8 : Nat) : Int) := rfl
  obtain ⟨headerValue, headerBuffer, -⟩ :=
    fatxRawRead_sectors disk ba nDriveIndex partitionOffset partitionInfo start eight
  obtain ⟨tableValue, tableBuffer, -⟩ :=
    fatxRawRead_sectors disk ba nDriveIndex partitionOffset chainTable behind length
  have first : partitionOffset + ((0 : UInt64) / 512).toUInt32 = partitionOffset :=
    UInt32.add_zero partitionOffset
  rw [first, readable_eq sound, if_pos rfl] at headerValue
  rw [first] at headerBuffer
  let header := fatxRawRead disk ba nDriveIndex partitionOffset 0 0x1000 partitionInfo
  let table := fatxRawRead disk ba nDriveIndex partitionOffset 0x1000 tableSize.toInt32 chainTable
  refine ⟨⟨some (FATXPartition.layout nDriveIndex partitionOffset partitionSize table.buffer),
    table.sectors ++ header.sectors, [tableSize, 44]⟩, ?_, congrArg (fun buffer => some
      (FATXPartition.layout nDriveIndex partitionOffset partitionSize buffer)) tableBuffer⟩
  have valid : ¬(fatxRawRead disk ba nDriveIndex partitionOffset 0 0x1000 partitionInfo).value ≠
      some fatxPartitionHeadersize := by
    rw [headerValue]
    decide
  unfold openFATXPartition
  dsimp only
  rw [size, if_neg valid, headerBuffer, magic, tableValue]
  simp [header, table]

end Open

end Cromwell.Fatx
