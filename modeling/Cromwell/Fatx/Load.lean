import Cromwell.Fatx.Lookup

/-!
# Loading a file

`FATXLoadFromDisk` copies the clusters of a chain to memory until the chain is over. The
size of the file bounds how much is copied, not how many clusters are loaded. A file is
loaded by its path into a block of its own, or to a given position.
-/

namespace Cromwell.Fatx

open Cromwell.Std

/-- Where the loading of a file stands. The size left is an `int`, but every comparison
with it is one of unsigned values. `writes` are the ranges copied to so far. -/
structure FileLoad where
  clusterId : Int32
  clusterData : Memory
  memory : Memory
  ptr : Nat
  fileSize : UInt32
  fileRead : UInt32
  accesses : List Access
  writes : List Extent

/-- What the load has used once a cluster is loaded. -/
def FileLoad.loading (load : FileLoad) (disk : Disk) (ba : Memory) (partition : FATXPartition) :
    List Access :=
  (loadFATXCluster disk ba partition load.clusterId load.clusterData).sectors.map .sector ++
    load.accesses

/-- One cluster of a file. -/
def loadPass (disk : Disk) (ba : Memory) (partition : FATXPartition) (load : FileLoad) :
    Pass FileLoad FileLoad :=
  if load.clusterId = -1 then .leave load
  else
    let loaded := loadFATXCluster disk ba partition load.clusterId load.clusterData
    let written := if load.fileSize ≤ partition.clusterSize then load.fileSize
      else partition.clusterSize
    .next
      { clusterId := getNextClusterInChain partition load.clusterId
        clusterData := loaded.buffer
        memory := load.memory.memcpy load.ptr loaded.buffer 0 written.toNat
        ptr := load.ptr + written.toNat
        fileSize := load.fileSize - written
        fileRead := load.fileRead + written
        accesses := .chainMap load.clusterId :: load.loading disk ba partition
        writes := ⟨load.ptr, written.toNat⟩ :: load.writes }

/-- What the loading of a file has come to: nothing yet, or success or failure. -/
structure LoadRun where
  result : Option Bool
  memory : Memory
  fileinfo : FATXFileInfo
  accesses : List Access
  writes : List Extent

/-- Before the first cluster. The array `clusterData` is on the stack and begins as `stack`. -/
def FATXFileInfo.start (fileinfo : FATXFileInfo) (stack : Memory) (buffer : Nat)
    (memory : Memory) (accesses : List Access) : FileLoad :=
  { clusterId := fileinfo.clusterId
    clusterData := stack
    memory
    ptr := buffer
    fileSize := fileinfo.fileSize
    fileRead := 0
    accesses
    writes := [] }

def fatxLoadFromDisk (disk : Disk) (ba : Memory) (stack : Memory) (partition : FATXPartition)
    (fuel : Nat) (fileinfo : FATXFileInfo) (buffer : Nat) (memory : Memory)
    (accesses : List Access) : LoadRun :=
  match whileLoop (loadPass disk ba partition) fuel
      (fileinfo.start stack buffer memory accesses) with
  | .next load =>
    { result := none
      memory := load.memory
      fileinfo := { fileinfo with fileRead := load.fileRead }
      accesses := load.accesses
      writes := load.writes }
  | .leave load =>
    { result := some (decide (load.fileSize = 0))
      memory := load.memory
      fileinfo := { fileinfo with fileRead := load.fileRead }
      accesses := load.accesses
      writes := load.writes }

/-- A file is looked up, its buffer filled with one value and then loaded. The lookup
and the loading begin with their own uninitialised arrays. -/
def loadByName (disk : Disk) (ba : Memory) (stack : List Byte → Memory) (loadStack : Memory)
    (value : Byte) (buffer : UInt32 → Nat) (partition : Option FATXPartition) (fuel : Nat)
    (filename : List Byte) (fileinfo : FATXFileInfo) (memory : Memory) : LoadRun :=
  match partition with
  | none => ⟨some false, memory, fileinfo, [], []⟩
  | some partition =>
    let lookup := fatxFindFile disk ba stack partition fuel filename fatxRootFatCluster
      fileinfo []
    match lookup.result with
    | none => ⟨none, memory, fileinfo, lookup.accesses, []⟩
    | some none => ⟨some false, memory, fileinfo, lookup.accesses, []⟩
    | some (some fileinfo) =>
      let position := buffer fileinfo.fileSize
      let size := fileinfo.fileSize.toNat
      let run := fatxLoadFromDisk disk ba loadStack partition fuel fileinfo position
        (memory.memset position value size) lookup.accesses
      { run with writes := run.writes ++ [⟨position, size⟩] }

/-- Load a file into a block of its size; `malloc` is where such a block is. -/
def loadFATXFile (disk : Disk) (ba : Memory) (stack : List Byte → Memory) (loadStack : Memory)
    (malloc : UInt32 → Nat) : Option FATXPartition → Nat → List Byte → FATXFileInfo → Memory →
      LoadRun :=
  loadByName disk ba stack loadStack 0 malloc

/-- Load a file to a position. -/
def loadFATXFilefixed (disk : Disk) (ba : Memory) (stack : List Byte → Memory)
    (loadStack : Memory) (position : Nat) : Option FATXPartition → Nat → List Byte →
      FATXFileInfo → Memory → LoadRun :=
  loadByName disk ba stack loadStack 0xff fun _ => position

/-! ## The chain as a walk -/

/-- From a cluster to the next one of its chain. -/
def chainStep (partition : FATXPartition) (clusterId : Int32) : Option Int32 :=
  enter (getNextClusterInChain partition clusterId)

/-- The `count`-th cluster of the chain that begins with a cluster. -/
def FATXPartition.clusterAt (partition : FATXPartition) (clusterId : Int32) (count : Nat) :
    Option Int32 :=
  walk (chainStep partition) (enter clusterId) count

/-- Where a load is on its chain. -/
def FileLoad.place (load : FileLoad) : Option Int32 := enter load.clusterId

variable {disk : Disk} {ba : Memory} {partition : FATXPartition} {load : FileLoad}

/-- The loop over the clusters of a file follows the chain. -/
theorem loadPass_follows :
    Follows FileLoad.place (chainStep partition) (loadPass disk ba partition) := by
  constructor
  · intro load next pass
    unfold loadPass at pass
    split at pass
    · cases pass
    · next more => simp [FileLoad.place, enter, more]
  · intro load result pass
    unfold loadPass at pass
    split at pass
    · next atEnd => simp [FileLoad.place, atEnd]
    · cases pass
  · intro load next pass
    unfold loadPass at pass
    split at pass
    · cases pass
    · next more =>
      cases pass
      simp [FileLoad.place, enter, more, chainStep]

end Cromwell.Fatx
