import Cromwell.Fatx.Partition

/-!
# Looking up a path

A directory is a chain of clusters full of entries. `_FATXFindFile` scans it, cluster by
cluster, for the first component of a path; if that names a directory, the rest of the
path is looked up there. The scan of a directory follows the cluster chain for as long
as nothing in a cluster ends it.
-/

namespace Cromwell.Fatx

open Cromwell.Std

def fatxDirectoryentrySize : Nat := 0x40
def fatxFileattrDirectory : Byte := 0x10
def fatxFilenameMax : Nat := 42

/-- A `FATXFILEINFO` without the buffer it points to. -/
structure FATXFileInfo where
  filename : List Byte
  clusterId : Int32
  fileSize : UInt32
  fileRead : UInt32

/-- What is used on the way: an entry of the chain map, or a sector of the drive. -/
inductive Access where
  | chainMap (clusterId : Int32)
  | sector (block : UInt32)
  deriving DecidableEq

/-- How the search of one directory ends. -/
inductive SearchResult where
  | notFound
  | descend (clusterId : Int32)
  | found (clusterId : Int32) (fileSize : UInt32)
  deriving DecidableEq

def checkForLastDirectoryEntry (entry : Byte) : Bool := entry = 0xff ∨ entry = 0

/-- The position of the first `ch`. -/
def strrchr0 (string : List Byte) (ch : Byte) : Option Nat := string.findIdx? (· = ch)

/-- The name in an entry, up to its first zero. -/
def foundFilename (clusterData : Memory) (curEntry filenameSize : Nat) : List Byte :=
  (clusterData.bytes (curEntry + 2) filenameSize).takeWhile (· ≠ 0)

/-- One entry of a directory. The end of the directory, a name of an invalid size and a
match of the other kind all end the search without a result. -/
def scanEntry (seekFilename : List Byte) (lookForDirectory : Bool) (clusterData : Memory)
    (i : Nat) : Pass Unit SearchResult :=
  let curEntry := i * fatxDirectoryentrySize
  let filenameSize := (clusterData curEntry).toNat
  if checkForLastDirectoryEntry (clusterData curEntry) then .leave .notFound
  else if filenameSize = 0xe5 then .next ()
  else if filenameSize < 1 ∨ fatxFilenameMax < filenameSize then .leave .notFound
  else
    let foundFilename := foundFilename clusterData curEntry filenameSize
    let flags := clusterData (curEntry + 1)
    let entryClusterId := (UInt32.ofNat (clusterData.dword (curEntry + 0x2c))).toInt32
    let fileSize := UInt32.ofNat (clusterData.dword (curEntry + 0x30))
    if seekFilename.length = foundFilename.length ∧
        foundFilename.take seekFilename.length = seekFilename.take seekFilename.length then
      match lookForDirectory, decide (flags &&& fatxFileattrDirectory ≠ 0) with
      | true, true => .leave (.descend entryClusterId)
      | false, false => .leave (.found entryClusterId fileSize)
      | _, _ => .leave .notFound
    else .next ()

/-- All entries of a cluster. -/
def scanCluster (seekFilename : List Byte) (lookForDirectory : Bool) (clusterSize : UInt32)
    (clusterData : Memory) : Pass Unit SearchResult :=
  forLoop (fun i _ => scanEntry seekFilename lookForDirectory clusterData i)
    (clusterSize.toNat / fatxDirectoryentrySize) 0 ()

/-- Where the search of a directory stands. -/
structure Search where
  clusterId : Int32
  clusterData : Memory
  accesses : List Access

/-- One cluster of a directory. -/
def searchPass (disk : Disk) (ba : Memory) (partition : FATXPartition)
    (seekFilename : List Byte) (lookForDirectory : Bool) (search : Search) :
    Pass Search (SearchResult × Search) :=
  if search.clusterId = -1 then .leave (.notFound, search)
  else
    let loaded := loadFATXCluster disk ba partition search.clusterId search.clusterData
    let accesses := loaded.sectors.map .sector ++ search.accesses
    match scanCluster seekFilename lookForDirectory partition.clusterSize loaded.buffer with
    | .leave result => .leave (result, ⟨search.clusterId, loaded.buffer, accesses⟩)
    | .next () => .next
        { clusterId := getNextClusterInChain partition search.clusterId
          clusterData := loaded.buffer
          accesses := .chainMap search.clusterId :: accesses }

/-- What a lookup has come to: nothing yet, no file, or a file. -/
structure LookupRun where
  result : Option (Option FATXFileInfo)
  accesses : List Access

/-- The component of a path that a directory is searched for. -/
def seekFilename (filename : List Byte) : List Byte :=
  filename.take ((strrchr0 filename 0x2f).getD filename.length)

/-- What follows the first slash. -/
def afterSlash (filename : List Byte) : List Byte :=
  filename.drop ((strrchr0 filename 0x2f).getD 0 + 1)

/-- Whether the component is followed by a slash. -/
def lookForDirectory (filename : List Byte) : Bool := (strrchr0 filename 0x2f).isSome

/-- The search of a directory for the first component of a path. The array `clusterData` is on
the stack; `stack` says what it holds when the call for the rest of a path begins. -/
def searchLoop (disk : Disk) (ba : Memory) (stack : List Byte → Memory)
    (partition : FATXPartition) (filename : List Byte) (clusterId : Int32)
    (accesses : List Access) (fuel : Nat) : Pass Search (SearchResult × Search) :=
  whileLoop (searchPass disk ba partition (seekFilename filename) (lookForDirectory filename))
    fuel ⟨clusterId, stack filename, accesses⟩

/-- Both the calls and the passes of each are bounded by `fuel`. -/
def _fatxFindFile (disk : Disk) (ba : Memory) (stack : List Byte → Memory)
    (partition : FATXPartition) : (fuel : Nat) → (filename : List Byte) → (clusterId : Int32) →
      FATXFileInfo → (accesses : List Access) → LookupRun
  | 0, _, _, _, accesses => ⟨none, accesses⟩
  | fuel + 1, filename, clusterId, fileinfo, accesses =>
    if fatxFilenameMax < (seekFilename filename).length then ⟨some none, accesses⟩
    else
      match searchLoop disk ba stack partition filename clusterId accesses (fuel + 1) with
      | .next search => ⟨none, search.accesses⟩
      | .leave (.notFound, search) => ⟨some none, search.accesses⟩
      | .leave (.descend entryClusterId, search) =>
        _fatxFindFile disk ba stack partition fuel (afterSlash filename) entryClusterId fileinfo
          search.accesses
      | .leave (.found entryClusterId fileSize, search) =>
        ⟨some (some { fileinfo with clusterId := entryClusterId, fileSize, filename }),
          search.accesses⟩

/-- A path as it is looked up: with slashes for backslashes, and none in front. -/
def normalized (filename : List Byte) : List Byte :=
  (filename.map fun ch => if ch = 0x5c then 0x2f else ch).dropWhile (· = 0x2f)

def fatxFindFile (disk : Disk) (ba : Memory) (stack : List Byte → Memory)
    (partition : FATXPartition) (fuel : Nat) (filename : List Byte) (clusterId : Int32)
    (fileinfo : FATXFileInfo) (accesses : List Access) : LookupRun :=
  _fatxFindFile disk ba stack partition fuel (normalized filename) clusterId fileinfo accesses

/-! ## The directory as a walk -/

/-- The clusters a walk can enter. -/
def enter (clusterId : Int32) : Option Int32 := if clusterId = -1 then none else some clusterId

/-- From a cluster, and what is in the buffer before it is loaded, to the next: unless
something in the cluster ends the search, or the chain is over. -/
def searchStep (disk : Disk) (partition : FATXPartition) (seekFilename : List Byte)
    (lookForDirectory : Bool) (place : Int32 × Memory) : Option (Int32 × Memory) :=
  let clusterData := partition.load disk place.1 place.2
  match scanCluster seekFilename lookForDirectory partition.clusterSize clusterData with
  | .leave _ => none
  | .next () =>
    (enter (getNextClusterInChain partition place.1)).map fun clusterId => (clusterId, clusterData)

/-- Where a search is on its walk. -/
def Search.place (search : Search) : Option (Int32 × Memory) :=
  (enter search.clusterId).map fun clusterId => (clusterId, search.clusterData)

/-- The `count`-th cluster the search for the first component of a path loads, with what is
in the buffer before. -/
def searchAt (disk : Disk) (stack : List Byte → Memory) (partition : FATXPartition)
    (filename : List Byte) (clusterId : Int32) (count : Nat) : Option (Int32 × Memory) :=
  walk (searchStep disk partition (seekFilename filename) (lookForDirectory filename))
    ((enter clusterId).map fun clusterId => (clusterId, stack filename)) count

theorem searchAt_succ (disk : Disk) (stack : List Byte → Memory) (partition : FATXPartition)
    (filename : List Byte) (clusterId : Int32) (count : Nat) :
    searchAt disk stack partition filename clusterId (count + 1) =
      (searchAt disk stack partition filename clusterId count).bind (searchStep disk partition
        (seekFilename filename) (lookForDirectory filename)) := rfl

/-- The scan of some cluster ends the search with a result. -/
def SearchLeaves (disk : Disk) (stack : List Byte → Memory) (partition : FATXPartition)
    (filename : List Byte) (clusterId : Int32) (result : SearchResult) : Prop :=
  ∃ count place, searchAt disk stack partition filename clusterId count = some place ∧
    scanCluster (seekFilename filename) (lookForDirectory filename) partition.clusterSize
      (partition.load disk place.1 place.2) = .leave result

/-- The directory searches a path leads to: what is left of the path, and the first cluster
of the directory it is looked up in. -/
inductive LeadsTo (disk : Disk) (stack : List Byte → Memory) (partition : FATXPartition) :
    List Byte → Int32 → List Byte → Int32 → Prop
  | here {filename : List Byte} {clusterId : Int32}
      (fits : (seekFilename filename).length ≤ fatxFilenameMax) :
      LeadsTo disk stack partition filename clusterId filename clusterId
  | descend {filename rest : List Byte} {clusterId entryClusterId last : Int32}
      (fits : (seekFilename filename).length ≤ fatxFilenameMax)
      (leaves : SearchLeaves disk stack partition filename clusterId (.descend entryClusterId))
      (onwards : LeadsTo disk stack partition (afterSlash filename) entryClusterId rest last) :
      LeadsTo disk stack partition filename clusterId rest last

section Walk

variable {disk : Disk} {ba : Memory} {partition : FATXPartition} {seek : List Byte}
  {directory : Bool} {search next : Search}

@[simp] theorem enter_eq_some {clusterId entered : Int32} :
    enter clusterId = some entered ↔ clusterId ≠ -1 ∧ clusterId = entered := by
  unfold enter
  split
  · next atEnd => simp [atEnd]
  · next more => simp [more]

theorem Search.place_eq_some {place : Int32 × Memory} : search.place = some place ↔
    search.clusterId ≠ -1 ∧ (search.clusterId, search.clusterData) = place := by
  unfold Search.place enter
  split
  · next atEnd => simp [atEnd]
  · next more => simp [more]

/-- What the search has used once a cluster is loaded. -/
def Search.loading (search : Search) (disk : Disk) (ba : Memory) (partition : FATXPartition) :
    List Access :=
  (loadFATXCluster disk ba partition search.clusterId search.clusterData).sectors.map .sector ++
    search.accesses

theorem searchPass_leave {result : SearchResult} (more : search.clusterId ≠ -1)
    (scanned : scanCluster seek directory partition.clusterSize
      (partition.load disk search.clusterId search.clusterData) = .leave result) :
    searchPass disk ba partition seek directory search =
      .leave (result,
        { clusterId := search.clusterId
          clusterData := partition.load disk search.clusterId search.clusterData
          accesses := search.loading disk ba partition }) := by
  rw [← (loadFATXCluster_spec disk ba partition search.clusterId search.clusterData).2.1]
    at scanned ⊢
  simp only [searchPass, more, if_false, scanned]
  rfl

theorem searchPass_next (more : search.clusterId ≠ -1)
    (scanned : scanCluster seek directory partition.clusterSize
      (partition.load disk search.clusterId search.clusterData) = .next ()) :
    searchPass disk ba partition seek directory search =
      .next
        { clusterId := getNextClusterInChain partition search.clusterId
          clusterData := partition.load disk search.clusterId search.clusterData
          accesses := .chainMap search.clusterId :: search.loading disk ba partition } := by
  rw [← (loadFATXCluster_spec disk ba partition search.clusterId search.clusterData).2.1]
    at scanned ⊢
  simp only [searchPass, more, if_false, scanned]
  rfl

theorem searchPass_over (atEnd : search.clusterId = -1) :
    searchPass disk ba partition seek directory search = .leave (.notFound, search) := by
  rw [searchPass, if_pos atEnd]

/-- The loop over the clusters of a directory follows the walk. -/
theorem searchPass_follows (ba : Memory) :
    Follows Search.place (searchStep disk partition seek directory)
      (searchPass disk ba partition seek directory) := by
  have place : ∀ {search : Search}, search.clusterId ≠ -1 →
      search.place = some (search.clusterId, search.clusterData) :=
    fun more => Search.place_eq_some.mpr ⟨more, rfl⟩
  constructor
  · intro search next pass
    by_cases atEnd : search.clusterId = -1
    · rw [searchPass_over atEnd] at pass
      cases pass
    · simp [place atEnd]
  · intro search result pass
    by_cases atEnd : search.clusterId = -1
    · simp [Search.place, atEnd]
    · rw [place atEnd, Option.bind_some, searchStep]
      cases scanned : scanCluster seek directory partition.clusterSize
          (partition.load disk search.clusterId search.clusterData) with
      | leave result => rfl
      | next _ =>
          rw [searchPass_next atEnd scanned] at pass
          cases pass
  · intro search next pass
    by_cases atEnd : search.clusterId = -1
    · rw [searchPass_over atEnd] at pass
      cases pass
    · rw [place atEnd, Option.bind_some, searchStep]
      cases scanned : scanCluster seek directory partition.clusterSize
          (partition.load disk search.clusterId search.clusterData) with
      | leave result =>
          rw [searchPass_leave atEnd scanned] at pass
          cases pass
      | next _ =>
          rw [searchPass_next atEnd scanned] at pass
          cases pass
          rfl

end Walk

section Runs

variable {disk : Disk} {ba : Memory} {stack : List Byte → Memory} {partition : FATXPartition}
  {filename : List Byte} {clusterId : Int32} {accesses : List Access}

theorem searchLoop_leave_add {fuel : Nat} {left : SearchResult × Search}
    (run : searchLoop disk ba stack partition filename clusterId accesses fuel = .leave left)
    (more : Nat) :
    searchLoop disk ba stack partition filename clusterId accesses (fuel + more) = .leave left :=
  whileLoop_leave_add run more

/-- A scan that ends the search is what the loop leaves with. -/
theorem SearchLeaves.searchLoop {result : SearchResult}
    (leaves : SearchLeaves disk stack partition filename clusterId result) (ba : Memory)
    (accesses : List Access) : ∃ fuel search,
      searchLoop disk ba stack partition filename clusterId accesses fuel =
        .leave (result, search) := by
  obtain ⟨count, place, reached, scanned⟩ := leaves
  have start : Search.place ⟨clusterId, stack filename, accesses⟩ =
      (enter clusterId).map fun clusterId => (clusterId, stack filename) := rfl
  rw [searchAt, ← start] at reached
  obtain ⟨search, passed, at_place⟩ := (searchPass_follows ba).exists_next reached
  obtain ⟨more, rfl⟩ := Search.place_eq_some.mp at_place
  have last := congrArg (Pass.andThen · (searchPass disk ba partition (seekFilename filename)
    (lookForDirectory filename))) passed
  rw [← whileLoop_last] at last
  exact ⟨count + 1, _, last.trans (searchPass_leave more scanned)⟩

/-- The loop leaves at the end of the chain, or with what a scan has found. -/
theorem searchLoop_leave {fuel : Nat} {result : SearchResult} {search : Search}
    (left : searchLoop disk ba stack partition filename clusterId accesses fuel =
      .leave (result, search)) :
    result = .notFound ∨ SearchLeaves disk stack partition filename clusterId result := by
  induction fuel with
  | zero => cases left
  | succ fuel ih =>
      rw [searchLoop, whileLoop_last] at left
      cases before : whileLoop (searchPass disk ba partition (seekFilename filename)
          (lookForDirectory filename)) fuel ⟨clusterId, stack filename, accesses⟩ with
      | leave earlier =>
          rw [before] at left
          exact ih (before.trans left)
      | next current =>
          rw [before] at left
          by_cases atEnd : current.clusterId = -1
          · rw [Pass.andThen, searchPass_over atEnd] at left
            cases left
            exact .inl rfl
          · have reached := (searchPass_follows ba).walk_eq before
            rw [Search.place_eq_some.mpr ⟨atEnd, rfl⟩] at reached
            cases scanned : scanCluster (seekFilename filename) (lookForDirectory filename)
                partition.clusterSize
                (partition.load disk current.clusterId current.clusterData) with
            | leave found =>
                rw [Pass.andThen, searchPass_leave atEnd scanned] at left
                cases left
                exact .inr ⟨fuel, _, reached, scanned⟩
            | next _ =>
                rw [Pass.andThen, searchPass_next atEnd scanned] at left
                cases left

end Runs

end Cromwell.Fatx
