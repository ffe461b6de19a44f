import Cromwell.Fatx.Writes

/-!
# What a loaded file holds

The bytes of a file are those of the clusters of its chain, one behind the other. A
chain is read off the chain map: every entry names the next cluster, and the last one is
an end marker. In a partition below sector `2 ^ 31` the sectors of its clusters do not
wrap, so each cluster that is loaded adds its own bytes, until as many are stored as the
file has or the chain is over.
-/

namespace Cromwell.Fatx

open Cromwell.Std

/-! ## Clusters and chains -/

/-- The entries that end a chain. -/
def FATXPartition.endMarkers (partition : FATXPartition) : List UInt32 :=
  if partition.chainMapEntrySize = 2 then [0xffff, 0xfff8] else [0xffffffff, 0xfffffff8]

/-- Clusters are counted from one. -/
structure FATXPartition.InRange (partition : FATXPartition) (clusterId : Int32) : Prop where
  first : 1 ≤ clusterId.toInt
  last : clusterId.toInt ≤ partition.clusterCount.toNat

/-- A chain of clusters, as the chain map has it. -/
inductive FATXPartition.Chain (partition : FATXPartition) : Int32 → List Int32 → Prop
  | last {clusterId : Int32} (inRange : partition.InRange clusterId)
      (marked : partition.entry clusterId ∈ partition.endMarkers) :
      partition.Chain clusterId [clusterId]
  | link {clusterId next : Int32} {rest : List Int32} (inRange : partition.InRange clusterId)
      (entry : partition.entry clusterId = next.toUInt32) (onwards : partition.Chain next rest) :
      partition.Chain clusterId (clusterId :: rest)

/-- The sector of the drive with which a cluster begins. -/
def FATXPartition.firstSector (partition : FATXPartition) (clusterId : Int32) : Nat :=
  partition.partitionStart.toNat +
    (partition.cluster1Address.toNat + (clusterId.toInt.toNat - 1) * 0x4000) / 512

/-- The bytes of a cluster on the drive. -/
def FATXPartition.clusterBytes (partition : FATXPartition) (disk : Disk) (clusterId : Int32) :
    List Byte :=
  Memory.bytes (diskByte disk partition.nDriveIndex
    (UInt32.ofNat (partition.firstSector clusterId))) 0 0x4000

theorem FATXPartition.Chain.inRange {partition : FATXPartition} {clusterId : Int32}
    {chain : List Int32} (linked : partition.Chain clusterId chain) :
    partition.InRange clusterId := by
  cases linked <;> assumption

/-- The bytes of a chain of clusters. -/
def FATXPartition.contents (partition : FATXPartition) (disk : Disk) (chain : List Int32) :
    List Byte :=
  chain.flatMap (partition.clusterBytes disk)

/-- Every sector of a cluster can be read. -/
def FATXPartition.ClusterReadable (partition : FATXPartition) (disk : Disk) (clusterId : Int32) :
    Prop :=
  ∀ k < 32, disk partition.nDriveIndex (UInt32.ofNat (partition.firstSector clusterId + k)) ≠ none

/-- What opening a partition below sector `2 ^ 31` makes sure of. -/
structure FATXPartition.Low (partition : FATXPartition) : Prop where
  sectors : partition.partitionStart.toNat + partition.partitionSize.toNat / 512 ≤ 2 ^ 31
  clusters : partition.clusterCount.toNat ≤ partition.partitionSize.toNat / 0x4000
  header : partition.cluster1Address.toNat < 2 ^ 32
  entrySize : partition.chainMapEntrySize = entrySize partition.clusterCount

section Clusters

variable {disk : Disk} {ba : Memory} {partition : FATXPartition} {clusterId : Int32}

@[simp] theorem length_clusterBytes (partition : FATXPartition) (disk : Disk)
    (clusterId : Int32) : (partition.clusterBytes disk clusterId).length = 0x4000 :=
  Memory.length_bytes _ _ _

theorem length_contents (partition : FATXPartition) (disk : Disk) (chain : List Int32) :
    (partition.contents disk chain).length = chain.length * 0x4000 := by
  induction chain with
  | nil => rfl
  | cons clusterId rest ih =>
      rw [FATXPartition.contents] at ih ⊢
      rw [List.flatMap_cons, List.length_append, ih, length_clusterBytes, List.length_cons]
      omega

/-- No sector number of a cluster of a low partition wraps. -/
theorem firstSector_lt (low : partition.Low) (inRange : partition.InRange clusterId) :
    partition.firstSector clusterId < 2 ^ 32 := by
  obtain ⟨first, last⟩ := inRange
  have sectors := low.sectors
  have clusters := low.clusters
  have header := low.header
  unfold FATXPartition.firstSector
  omega

/-- The sector number the loader computes is that of the cluster. -/
theorem clusterSector_eq (low : partition.Low) (inRange : partition.InRange clusterId) :
    partition.clusterSector clusterId = UInt32.ofNat (partition.firstSector clusterId) := by
  have bound := firstSector_lt low inRange
  apply UInt32.toNat_inj.mp
  rw [UInt32.toNat_ofNat_of_lt' bound]
  exact toNat_clusterSector inRange.first bound

/-- A readable cluster is loaded in full. -/
theorem bytes_load (low : partition.Low) (inRange : partition.InRange clusterId)
    (whole : partition.ClusterReadable disk clusterId) (clusterData : Memory) :
    (partition.load disk clusterId clusterData).bytes 0 0x4000 =
      partition.clusterBytes disk clusterId := by
  have all : readable disk partition.nDriveIndex 32
      (UInt32.ofNat (partition.firstSector clusterId)) = 32 :=
    readable_of_reads fun k bound => UInt32.ofNat_add _ _ ▸ whole k bound
  refine Memory.bytes_congr fun k bound => ?_
  rw [FATXPartition.load, clusterSector_eq low inRange, fill, all, if_pos (by omega)]

/-- Entries are two or four bytes wide, and two only for few clusters. -/
theorem FATXPartition.Low.width (low : partition.Low) :
    (partition.chainMapEntrySize = 2 ∧ partition.clusterCount.toNat < 0xfff4) ∨
      partition.chainMapEntrySize = 4 := by
  rw [low.entrySize, Fatx.entrySize]
  split
  · exact .inr rfl
  · next few =>
    refine .inl ⟨rfl, ?_⟩
    exact Nat.lt_of_not_le fun many => few (UInt32.le_iff_toNat_le.mpr many)

/-- An end marker ends the chain. -/
theorem getNextClusterInChain_marked (low : partition.Low)
    (marked : partition.entry clusterId ∈ partition.endMarkers) :
    getNextClusterInChain partition clusterId = -1 := by
  rcases low.width with ⟨width, -⟩ | width <;>
    simp only [FATXPartition.endMarkers, width] at marked <;>
    simp only [getNextClusterInChain, width] <;>
    exact if_pos (by simpa using marked)

/-- The id of a cluster is its number. -/
theorem FATXPartition.InRange.toNat (inRange : partition.InRange clusterId) :
    clusterId.toUInt32.toNat = clusterId.toInt.toNat := by
  have first := inRange.first
  exact Int32.toNat_toUInt32_of_le (Int32.le_iff_toInt_le.mpr (by change 0 ≤ _; omega))

/-- Any other entry that is the id of a cluster leads to that cluster. -/
theorem getNextClusterInChain_linked (low : partition.Low) {next : Int32}
    (entry : partition.entry clusterId = next.toUInt32) (inRange : partition.InRange next) :
    getNextClusterInChain partition clusterId = next := by
  have number := inRange.toNat
  have small := next.toInt_lt
  have last := inRange.last
  have differs : ∀ marker : UInt32, next.toInt.toNat < marker.toNat → next.toUInt32 ≠ marker :=
    fun marker below same => by
      rw [← same, number] at below
      exact Nat.lt_irrefl _ below
  rcases low.width with ⟨width, few⟩ | width
  · have end0 := differs 0xffff (by change _ < 0xffff; omega)
    have end1 := differs 0xfff8 (by change _ < 0xfff8; omega)
    simp [getNextClusterInChain, width, entry, end0, end1]
  · have end0 := differs 0xffffffff (by change _ < 0xffffffff; omega)
    have end1 := differs 0xfffffff8 (by change _ < 0xfffffff8; omega)
    simp [getNextClusterInChain, width, entry, end0, end1]

end Clusters

/-! ## The loop -/

section Loading

variable {disk : Disk} {ba : Memory} {partition : FATXPartition}

/-- One load comes from another by copying some bytes of a file, after so many clusters. -/
structure Copied (count : Nat) (bytes : List Byte) (load later : FileLoad) : Prop where
  ptr : later.ptr = load.ptr + min load.fileSize.toNat (count * 0x4000)
  memory : later.memory = load.memory.store load.ptr (bytes.take load.fileSize.toNat)
  fileSize : later.fileSize.toNat = load.fileSize.toNat - count * 0x4000
  fileRead : later.fileRead + later.fileSize = load.fileRead + load.fileSize

/-- What is copied later goes behind what was copied before. -/
theorem Copied.trans {first second : Nat} {front rest : List Byte} {load middle later : FileLoad}
    (before : Copied first front load middle) (behind : Copied second rest middle later)
    (length : front.length = first * 0x4000) :
    Copied (first + second) (front ++ rest) load later where
  ptr := by
    rw [behind.ptr, before.ptr, before.fileSize]
    omega
  memory := by
    have place : middle.ptr = load.ptr + (front.take load.fileSize.toNat).length := by
      rw [before.ptr, List.length_take, length]
    rw [behind.memory, before.memory, place, ← Memory.store_append, before.fileSize,
      List.take_append, length]
  fileSize := by
    rw [behind.fileSize, before.fileSize]
    omega
  fileRead := behind.fileRead.trans before.fileRead

/-- A cluster is copied, as far as the file goes, with whatever could be read of it. -/
theorem loadPass_copied (disk : Disk) (ba : Memory) (partition : FATXPartition) {load : FileLoad}
    (going : load.clusterId ≠ -1) :
    ∃ next, loadPass disk ba partition load = .next next ∧
      next.clusterId = getNextClusterInChain partition load.clusterId ∧
      next.clusterData = partition.load disk load.clusterId load.clusterData ∧
      Copied 1 ((partition.load disk load.clusterId load.clusterData).bytes 0 0x4000)
        load next := by
  have written := toNat_written load.fileSize partition
  have left := toNat_left load.fileSize partition
  have loaded := (loadFATXCluster_spec disk ba partition load.clusterId load.clusterData).2.1
  rw [loadPass, if_neg going]
  refine ⟨_, rfl, rfl, loaded, ?_⟩
  exact {
    ptr := by
      dsimp only
      rw [written, Nat.one_mul]
    memory := by
      dsimp only
      rw [written, loaded, Memory.memcpy_eq_store, Memory.take_bytes]
    fileSize := by
      dsimp only
      rw [left, Nat.one_mul]
    fileRead := by
      dsimp only
      rw [UInt32.add_assoc, UInt32.add_comm _ (load.fileSize - _), UInt32.sub_add_cancel] }

/-- A cluster of a chain is copied, and the chain goes on. -/
theorem loadPass_cluster (ba : Memory) (low : partition.Low) {load : FileLoad}
    (inRange : partition.InRange load.clusterId)
    (whole : partition.ClusterReadable disk load.clusterId) :
    ∃ next, loadPass disk ba partition load = .next next ∧
      next.clusterId = getNextClusterInChain partition load.clusterId ∧
      Copied 1 (partition.clusterBytes disk load.clusterId) load next := by
  have going : load.clusterId ≠ -1 := by
    intro atEnd
    have first := inRange.first
    rw [atEnd] at first
    exact absurd first (by decide)
  obtain ⟨next, pass, follows, -, copied⟩ := loadPass_copied disk ba partition going
  rw [bytes_load low inRange whole load.clusterData] at copied
  exact ⟨next, pass, follows, copied⟩

/-- The loading of a chain copies its clusters and then leaves the loop. -/
theorem loadLoop_chain (ba : Memory) (low : partition.Low) {clusterId : Int32}
    {chain : List Int32} (linked : partition.Chain clusterId chain)
    (reads : ∀ cluster ∈ chain, partition.ClusterReadable disk cluster) (load : FileLoad)
    (begins : load.clusterId = clusterId) :
    ∃ left, whileLoop (loadPass disk ba partition) (chain.length + 1) load = .leave left ∧
      Copied chain.length (partition.contents disk chain) load left := by
  induction linked generalizing load with
  | @last clusterId inRange marked =>
      subst begins
      obtain ⟨next, pass, follows, copied⟩ :=
        loadPass_cluster ba low inRange (reads _ List.mem_cons_self)
      rw [getNextClusterInChain_marked low marked] at follows
      refine ⟨next, ?_, ?_⟩
      · rw [List.length_singleton, whileLoop_succ, pass, Pass.andThen, whileLoop_succ, loadPass,
          if_pos follows, Pass.andThen]
      · rwa [FATXPartition.contents, List.flatMap_singleton]
  | @link clusterId next rest inRange entry onwards ih =>
      subst begins
      obtain ⟨second, pass, follows, copied⟩ :=
        loadPass_cluster ba low inRange (reads _ List.mem_cons_self)
      rw [getNextClusterInChain_linked low entry onwards.inRange] at follows
      obtain ⟨left, run, rest⟩ :=
        ih (fun cluster member => reads cluster (List.mem_cons_of_mem _ member)) second follows
      refine ⟨left, by rw [List.length_cons, whileLoop_succ, pass, Pass.andThen, run], ?_⟩
      rw [List.length_cons, Nat.add_comm, FATXPartition.contents, List.flatMap_cons]
      exact copied.trans rest (by rw [length_clusterBytes, Nat.one_mul])

/-! ## Chains of any kind -/

/-- What the clusters of a chain are taken to hold if it ends within so many passes. They are
read into one buffer, and what cannot be read is what was there before. -/
def chainBytes (disk : Disk) (partition : FATXPartition) :
    (fuel : Nat) → (clusterId : Int32) → (clusterData : Memory) → Option (List Byte)
  | 0, _, _ => none
  | fuel + 1, clusterId, clusterData =>
    if clusterId = -1 then some []
    else
      let loaded := partition.load disk clusterId clusterData
      (chainBytes disk partition fuel (getNextClusterInChain partition clusterId) loaded).map
        (loaded.bytes 0 0x4000 ++ ·)

/-- The loading of any chain that ends copies what its clusters are taken to hold. -/
theorem loadLoop_chainBytes (disk : Disk) (ba : Memory) (partition : FATXPartition) (fuel : Nat)
    (load : FileLoad) :
    (whileLoop (loadPass disk ba partition) fuel load).Ends
      (fun _ => chainBytes disk partition fuel load.clusterId load.clusterData = none)
      fun left => ∃ count bytes, bytes.length = count * 0x4000 ∧ Copied count bytes load left ∧
        chainBytes disk partition fuel load.clusterId load.clusterData = some bytes := by
  induction fuel generalizing load with
  | zero => rfl
  | succ fuel ih =>
      rw [whileLoop_succ, chainBytes]
      by_cases going : load.clusterId = -1
      · rw [loadPass, if_pos going, if_pos going]
        refine ⟨0, [], rfl, ?_, rfl⟩
        constructor <;> simp
      · obtain ⟨next, pass, follows, loaded, copied⟩ := loadPass_copied disk ba partition going
        have rest := ih next
        rw [follows, loaded] at rest
        rw [pass, Pass.andThen, if_neg going]
        dsimp only
        refine rest.mono ?_ ?_
        · intro _ unended
          rw [unended]
          rfl
        · rintro left ⟨count, bytes, length, behind, ended⟩
          refine ⟨1 + count, _, ?_, copied.trans behind (by simp), by rw [ended]; rfl⟩
          rw [List.length_append, Memory.length_bytes, length]
          omega

end Loading

/-! ## Files of an opened partition -/

section Opened

variable {disk : Disk} {ba : Memory} {malloc : UInt32 → Bool} {partitionInfo chainTable : Memory}
  {nDriveIndex : Int32} {partitionOffset : UInt32} {partitionSize : UInt64} {opened : Opened}
  {partition : FATXPartition}

/-- An opened partition that ends below sector `2 ^ 31` is a low one. -/
theorem low_of_open
    (opens : openFATXPartition disk ba malloc partitionInfo chainTable nDriveIndex
      partitionOffset partitionSize = some opened) (isOpen : opened.partition = some partition)
    (below : partition.partitionStart.toNat + partition.partitionSize.toNat / 512 ≤ 2 ^ 31) :
    partition.Low := by
  obtain ⟨⟨chainMap, rfl⟩, -⟩ := layout_of_open opens isOpen
  exact {
    sectors := below
    clusters := by
      change ((partitionSize / 0x4000).toUInt32).toNat ≤ partitionSize.toNat / 0x4000
      rw [UInt64.toNat_toUInt32, UInt64.toNat_div]
      exact Nat.mod_le _ _
    header := (UInt32.toNat_toUInt64 _).trans_lt (UInt32.toNat_lt _)
    entrySize := rfl }

/-- What the loading of a file along a finite chain comes to. The file is complete exactly
if the chain has enough clusters; otherwise all there are have been stored. -/
structure LoadsContents (contents : List Byte) (fileSize : UInt32) (buffer : Nat)
    (memory : Memory) (run : LoadRun) : Prop where
  result : run.result = some (decide (fileSize.toNat ≤ contents.length))
  complete : fileSize.toNat ≤ contents.length →
    run.memory.bytes buffer fileSize.toNat = contents.take fileSize.toNat ∧
      run.fileinfo.fileRead = fileSize
  short : contents.length < fileSize.toNat →
    run.memory.bytes buffer contents.length = contents ∧
      run.fileinfo.fileRead.toNat = contents.length
  frame : ∀ x, (x < buffer ∨ buffer + min fileSize.toNat contents.length ≤ x) →
    run.memory x = memory x

/-- Copying all of the chain is what it takes. -/
theorem Copied.loadsContents {count : Nat} {contents : List Byte} {load left : FileLoad}
    (copied : Copied count contents load left) (length : contents.length = count * 0x4000)
    (fresh : load.fileRead = 0) (fileinfo : FATXFileInfo) (accesses : List Access)
    (writes : List Extent) :
    LoadsContents contents load.fileSize load.ptr load.memory
      { result := some (decide (left.fileSize = 0))
        memory := left.memory
        fileinfo := { fileinfo with fileRead := left.fileRead }
        accesses, writes } := by
  have remaining := copied.fileSize
  have zero : left.fileSize = 0 ↔ load.fileSize.toNat ≤ contents.length := by
    rw [← UInt32.toNat_inj, remaining]
    change _ = 0 ↔ _
    omega
  have counted : left.fileRead + left.fileSize = load.fileSize := by
    rw [copied.fileRead, fresh, UInt32.zero_add]
  have stored : (contents.take load.fileSize.toNat).length =
      min load.fileSize.toNat contents.length := List.length_take
  constructor
  · simp only [zero]
  · intro complete
    rw [zero.mpr complete, UInt32.add_zero] at counted
    rw [Nat.min_eq_left complete] at stored
    refine ⟨?_, counted⟩
    have read := Memory.bytes_store load.memory load.ptr (contents.take load.fileSize.toNat)
    rwa [stored, ← copied.memory] at read
  · intro short
    have whole : contents.take load.fileSize.toNat = contents :=
      List.take_of_length_le (Nat.le_of_lt short)
    refine ⟨?_, ?_⟩
    · have read := Memory.bytes_store load.memory load.ptr contents
      have memory := copied.memory
      rw [whole] at memory
      rwa [← memory] at read
    · have sum := congrArg UInt32.toNat counted
      have bound := left.fileRead.toNat_lt
      rw [UInt32.toNat_add] at sum
      change left.fileRead.toNat = contents.length
      omega
  · intro x outside
    change left.memory x = load.memory x
    rw [copied.memory]
    exact Memory.store_outside _ (by rwa [stored])

/-- The loading of a file follows its chain and stores as much of it as belongs to the
file. The loop needs one pass more than the chain has clusters. -/
theorem fatxLoadFromDisk_chain
    (opens : openFATXPartition disk ba malloc partitionInfo chainTable nDriveIndex
      partitionOffset partitionSize = some opened) (isOpen : opened.partition = some partition)
    (below : partition.partitionStart.toNat + partition.partitionSize.toNat / 512 ≤ 2 ^ 31)
    (fileinfo : FATXFileInfo) {chain : List Int32}
    (linked : partition.Chain fileinfo.clusterId chain)
    (reads : ∀ clusterId ∈ chain, partition.ClusterReadable disk clusterId)
    (loadStack memory : Memory) (buffer : Nat) (accesses : List Access) {fuel : Nat}
    (enough : chain.length < fuel) :
    (partition.contents disk chain).length = chain.length * partition.clusterSize.toNat ∧
      LoadsContents (partition.contents disk chain) fileinfo.fileSize buffer memory
        (fatxLoadFromDisk disk ba loadStack partition fuel fileinfo buffer memory accesses) := by
  have low := low_of_open opens isOpen below
  have length := length_contents partition disk chain
  obtain ⟨left, run, copied⟩ := loadLoop_chain ba low linked reads
    (fileinfo.start loadStack buffer memory accesses) rfl
  obtain ⟨more, rfl⟩ := Nat.exists_eq_add_of_le (Nat.succ_le_of_lt enough)
  refine ⟨by rw [length, partition.clusterSize_eq]; rfl, ?_⟩
  rw [fatxLoadFromDisk, whileLoop_leave_add run more]
  exact copied.loadsContents length rfl fileinfo _ _

end Opened

/-! ## What a path gives -/

section Paths

variable {disk : Disk} {ba loadStack memory : Memory} {stack : List Byte → Memory}
  {partition : FATXPartition} {fileinfo : FATXFileInfo} {buffer fuel : Nat}
  {accesses : List Access} {filename : List Byte}

/-- A load comes to its end exactly if the chain does, and stores what belongs to the file. -/
theorem fatxLoadFromDisk_reads (run : LoadRun) (ran : fatxLoadFromDisk disk ba loadStack partition
      fuel fileinfo buffer memory accesses = run) :
    (chainBytes disk partition fuel fileinfo.clusterId loadStack = none → run.result = none) ∧
      ∀ bytes, chainBytes disk partition fuel fileinfo.clusterId loadStack = some bytes →
        run.result = some (decide (fileinfo.fileSize.toNat ≤ bytes.length)) ∧
          run.memory = memory.store buffer (bytes.take fileinfo.fileSize.toNat) := by
  have ends := loadLoop_chainBytes disk ba partition fuel
    (fileinfo.start loadStack buffer memory accesses)
  subst ran
  rw [fatxLoadFromDisk]
  cases ended : whileLoop (loadPass disk ba partition) fuel
      (fileinfo.start loadStack buffer memory accesses) with
  | next load =>
      rw [ended] at ends
      refine ⟨fun _ => rfl, fun bytes some_bytes => ?_⟩
      rw [show chainBytes disk partition fuel fileinfo.clusterId loadStack = none from ends]
        at some_bytes
      cases some_bytes
  | leave load =>
      rw [ended] at ends
      obtain ⟨count, bytes, length, copied, same⟩ := ends
      change chainBytes disk partition fuel fileinfo.clusterId loadStack = some bytes at same
      rw [same]
      refine ⟨fun none => absurd none (Option.some_ne_none _), fun _ equal => ?_⟩
      cases equal
      exact ⟨(copied.loadsContents length rfl fileinfo load.accesses load.writes).result,
        copied.memory⟩

/-- The bytes of the file a path leads to, if its chain has them all. -/
def fileBytes (disk : Disk) (ba : Memory) (stack : List Byte → Memory) (loadStack : Memory)
    (partition : FATXPartition) (fuel : Nat) (filename : List Byte) (fileinfo : FATXFileInfo) :
    Option (List Byte) :=
  match (fatxFindFile disk ba stack partition fuel filename fatxRootFatCluster fileinfo
      []).result with
  | some (some fileinfo) =>
    match chainBytes disk partition fuel fileinfo.clusterId loadStack with
    | some bytes =>
      if fileinfo.fileSize.toNat ≤ bytes.length then some (bytes.take fileinfo.fileSize.toNat)
      else none
    | none => none
  | _ => none

/-- A file is loaded exactly if the path gives all its bytes, and these are then stored. -/
theorem loadFATXFilefixed_reads (run : LoadRun) (ran : loadFATXFilefixed disk ba stack loadStack
      buffer (some partition) fuel filename fileinfo memory = run) :
    (fileBytes disk ba stack loadStack partition fuel filename fileinfo = none →
        run.result ≠ some true) ∧
      ∀ bytes, fileBytes disk ba stack loadStack partition fuel filename fileinfo = some bytes →
        run.result = some true ∧ run.memory = memory.store buffer bytes := by
  subst ran
  rw [loadFATXFilefixed, loadByName, fileBytes]
  dsimp only
  cases returned : (fatxFindFile disk ba stack partition fuel filename fatxRootFatCluster
      fileinfo []).result with
  | none => simp
  | some found =>
      cases found with
      | none => simp
      | some info =>
          dsimp only
          obtain ⟨unended, reads⟩ := fatxLoadFromDisk_reads _ (rfl : fatxLoadFromDisk disk ba
            loadStack partition fuel info buffer (memory.memset buffer 0xff info.fileSize.toNat)
            (fatxFindFile disk ba stack partition fuel filename fatxRootFatCluster fileinfo
              []).accesses = _)
          cases chain : chainBytes disk partition fuel info.clusterId loadStack with
          | none => simp [unended chain]
          | some bytes =>
              obtain ⟨result, stored⟩ := reads bytes chain
              rw [result, stored]
              dsimp only
              by_cases enough : info.fileSize.toNat ≤ bytes.length
              · rw [if_pos enough, decide_eq_true enough]
                refine ⟨fun none => absurd none (Option.some_ne_none _), fun _ same => ⟨rfl, ?_⟩⟩
                cases same
                apply Memory.store_memset
                rw [List.length_take, Nat.min_eq_left enough]
              · simp [enough]

/-- A file at a path, with all its bytes. -/
def IsFile (disk : Disk) (stack : List Byte → Memory) (loadStack : Memory)
    (partition : FATXPartition) (filename : List Byte) (bytes : List Byte) : Prop :=
  ∃ clusterId fileSize, Finds disk stack partition (normalized filename) fatxRootFatCluster
      clusterId fileSize ∧
    ∃ passes contents, chainBytes disk partition passes clusterId loadStack = some contents ∧
      fileSize.toNat ≤ contents.length ∧ bytes = contents.take fileSize.toNat

theorem chainBytes_add {clusterId : Int32} {clusterData : Memory} {contents : List Byte}
    (given : chainBytes disk partition fuel clusterId clusterData = some contents) (more : Nat) :
    chainBytes disk partition (fuel + more) clusterId clusterData = some contents := by
  induction fuel generalizing clusterId clusterData contents with
  | zero => cases given
  | succ fuel ih =>
      rw [Nat.add_right_comm]
      rw [chainBytes] at given ⊢
      split at given
      · next atEnd => rwa [if_pos atEnd]
      · next going =>
        rw [if_neg going]
        obtain ⟨rest, behind, rfl⟩ := Option.map_eq_some_iff.mp given
        exact Option.map_eq_some_iff.mpr ⟨rest, ih behind, rfl⟩

/-- What a path gives is a file there. -/
theorem isFile_of_fileBytes {bytes : List Byte}
    (given : fileBytes disk ba stack loadStack partition fuel filename fileinfo = some bytes) :
    IsFile disk stack loadStack partition filename bytes := by
  unfold fileBytes at given
  split at given
  · next info returned =>
    split at given
    · next contents chain =>
      split at given
      · next enough =>
        cases given
        exact ⟨info.clusterId, info.fileSize, finds_of_result returned, fuel, contents, chain,
          enough, rfl⟩
      · cases given
    · cases given
  · cases given

/-- A file is what its path gives, with enough fuel. -/
theorem fileBytes_of_isFile {bytes : List Byte} (ba : Memory) (fileinfo : FATXFileInfo)
    (file : IsFile disk stack loadStack partition filename bytes) :
    ∃ base, ∀ more, fileBytes disk ba stack loadStack partition (base + more) filename fileinfo =
      some bytes := by
  obtain ⟨_, _, finds, passes, contents, chain, enough, rfl⟩ := file
  obtain ⟨fuel, info, returned, rfl, rfl⟩ := result_of_finds fileinfo ba [] finds
  refine ⟨fuel + passes, fun more => ?_⟩
  have found : (fatxFindFile disk ba stack partition (fuel + passes + more) filename
      fatxRootFatCluster fileinfo []).result = some (some info) := by
    rw [Nat.add_assoc]
    exact findFile_fuel_add returned (passes + more)
  have given : chainBytes disk partition (fuel + passes + more) info.clusterId loadStack =
      some contents := by
    rw [Nat.add_comm fuel, Nat.add_assoc]
    exact chainBytes_add chain (fuel + more)
  rw [fileBytes, found]
  dsimp only
  rw [given]
  exact if_pos enough

theorem fatxLoadFromDisk_fileSize : (fatxLoadFromDisk disk ba loadStack partition fuel fileinfo
    buffer memory accesses).fileinfo.fileSize = fileinfo.fileSize := by
  rw [fatxLoadFromDisk]
  cases whileLoop (loadPass disk ba partition) fuel
      (fileinfo.start loadStack buffer memory accesses) with
  | next load => rfl
  | leave load => rfl

/-- A file that was loaded has left its size. -/
theorem fileSize_of_fileBytes {bytes : List Byte}
    (given : fileBytes disk ba stack loadStack partition fuel filename fileinfo = some bytes) :
    (loadFATXFilefixed disk ba stack loadStack buffer (some partition) fuel filename fileinfo
      memory).fileinfo.fileSize = UInt32.ofNat bytes.length := by
  unfold fileBytes at given
  split at given
  · next info returned =>
    split at given
    · next contents chain =>
      split at given
      · next enough =>
        cases given
        rw [List.length_take, Nat.min_eq_left enough, UInt32.ofNat_toNat, loadFATXFilefixed,
          loadByName]
        dsimp only
        rw [returned]
        exact fatxLoadFromDisk_fileSize
      · cases given
    · cases given
  · cases given

end Paths

/-! ## A file of two clusters -/

/-- A drive of ones, but for the header of the system partition and the third entry of its
chain map. -/
def markedDisk : Disk := fun _ sector => some fun x =>
  if sector = sectorSystem then [0x46, 0x41, 0x54, 0x58].getD x 0
  else if sector = sectorSystem + 8 then [0xff, 0xff, 0xff, 0xff, 0x03, 0x00].getD x 0xff
  else 0xff

/-- The system partition of that drive: the second cluster leads to the third, and every other
entry of the chain map is an end marker. -/
def markedPartition : FATXPartition :=
  .layout 0 sectorSystem systemSize (fill markedDisk 0 128 (sectorSystem + 8) fun _ => 0)

theorem markedPartition_opens :
    ∃ opened, openFATXPartition markedDisk (fun _ => 0) (fun _ => true) (fun _ => 0) (fun _ => 0)
      0 sectorSystem systemSize = some opened ∧ opened.partition = some markedPartition :=
  open_of_sound (fun _ => 0) (fun _ => 0) (fun _ => 0) 0x10000
    (fun sector => by simp [markedDisk]) (by decide) (by decide) (by decide)

theorem fatxLoadFromDisk_chain_marked :
    (fatxLoadFromDisk markedDisk (fun _ => 0) (fun _ => 0) markedPartition 3 ⟨[], 2, 0x4100, 0⟩ 0
      (fun _ => 0) []).result = some true := by
  obtain ⟨opened, opens, isOpen⟩ := markedPartition_opens
  have last : markedPartition.Chain 3 [3] :=
    .last ⟨by decide, by decide⟩ (by decide +kernel)
  have linked : markedPartition.Chain 2 [2, 3] :=
    .link ⟨by decide, by decide⟩ (by decide +kernel) last
  have loaded := (fatxLoadFromDisk_chain opens isOpen (by decide) ⟨[], 2, 0x4100, 0⟩ linked
    (fun _ _ _ _ => by simp [markedDisk]) (fun _ => 0) (fun _ => 0) 0 []
    (by decide : 2 < 3)).2.result
  rw [length_contents] at loaded
  exact loaded

end Cromwell.Fatx
